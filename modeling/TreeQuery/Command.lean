import TreeQuery.Library
import TreeQuery.Markup
import TreeQuery.Session

/-!
# The command line

The arguments of the command ask for a document, for variables and for the value of one expression,
or of those that follow line by line. What the command answers depends on the arguments, on the
text of the document and on its input alone.
-/

namespace TreeQuery.Command

/-- What the arguments ask for. -/
structure Request where
  /-- The file of the document. -/
  document : Option String := none
  /-- The variables, as `NAME=VALUE`, in order. -/
  bindings : List String := []
  /-- The expression; without one a session is held. -/
  expression : Option String := none
  deriving DecidableEq

/-- An option that takes a value. -/
inductive Setting where
  /-- The file of the document. -/
  | document
  /-- A variable. -/
  | binding
  deriving DecidableEq

/-- What one argument is. -/
inductive Argument where
  /-- An option, and its value if that is part of the argument. -/
  | setting (setting : Setting) (value : Option String)
  /-- A text that is no option. -/
  | plain (text : String)
  /-- Behind it no argument is an option. -/
  | escape
  /-- The usage is asked for. -/
  | help
  /-- The version is asked for. -/
  | version
  /-- An option that does not exist. -/
  | unknown
  deriving DecidableEq

namespace Argument

/-- An option by its name, which may have a value behind an equals sign. -/
def ofName (cs : List Char) : Argument :=
  let (name, value) := match Text.splitOnce '=' cs with
    | some (name, value) => (String.ofList name, some (String.ofList value))
    | none => (String.ofList cs, none)
  match name, value with
  | "doc", _ => .setting .document value
  | "var", _ => .setting .binding value
  | "help", none => .help
  | "version", none => .version
  | _, _ => .unknown

/-- The value that follows a letter in the same argument, with or without an equals sign between
them. -/
def attached : List Char → Option String
  | [] => none
  | '=' :: cs => some (String.ofList cs)
  | cs => some (String.ofList cs)

/-- An option by its letter. -/
def ofLetter (c : Char) (cs : List Char) : Argument :=
  match c with
  | 'd' => .setting .document (attached cs)
  | 'v' => .setting .binding (attached cs)
  | 'h' => .help
  | 'V' => .version
  | _ => .unknown

/-- Reads an argument. A lone hyphen is no option. -/
def ofText (text : String) : Argument :=
  match text.toList with
  | ['-', '-'] => .escape
  | '-' :: '-' :: cs => ofName cs
  | '-' :: c :: cs => ofLetter c cs
  | _ => .plain text

end Argument

namespace Request

/-- Takes the value of an option. There is one document at most, and its file has a name. -/
def set? (r : Request) (setting : Setting) (value : String) : Option Request :=
  match setting with
  | .document =>
    if r.document.isSome || value.isEmpty then none else some { r with document := some value }
  | .binding => some { r with bindings := r.bindings ++ [value] }

/-- Takes the expression. There is one at most. -/
def setExpression? (r : Request) (text : String) : Option Request :=
  if r.expression.isSome then none else some { r with expression := some text }

end Request

/-- What the command is to do. -/
inductive Task where
  /-- To show how the command is used. -/
  | help
  /-- To show the version. -/
  | version
  /-- To answer a request. -/
  | answer (request : Request)
  deriving DecidableEq

namespace Task

/-- Reads arguments behind those that make up a request, up to one that asks for something else. -/
def ofArgumentsFrom? (r : Request) : List String → Option Task
  | [] => some (.answer r)
  | a :: as =>
    match Argument.ofText a with
    | .help => some .help
    | .version => some .version
    | .unknown => none
    | .plain text =>
      match r.setExpression? text with
      | some r => ofArgumentsFrom? r as
      | none => none
    | .escape => (as.foldlM Request.setExpression? r).map .answer
    | .setting s (some value) =>
      match r.set? s value with
      | some r => ofArgumentsFrom? r as
      | none => none
    | .setting s none =>
      match as with
      | [] => none
      | value :: as =>
        match Argument.ofText value with
        | .plain value =>
          match r.set? s value with
          | some r => ofArgumentsFrom? r as
          | none => none
        | _ => none

/-- Reads the arguments of the command. -/
def ofArguments? (arguments : List String) : Option Task := ofArgumentsFrom? {} arguments

end Task

/-- Why a request has no answer. -/
inductive Failure where
  /-- The document or the input cannot be read. -/
  | file (reason : String)
  /-- The document is not well formed. -/
  | markup
  /-- A variable has no value, or its name is no name. -/
  | binding (text : String)
  /-- The expression has no value. -/
  | query (error : QueryError)

/-- The text that is shown for a request without an answer. -/
def Failure.message : Failure → String
  | .file reason => "I/O error: " ++ reason
  | .markup => "Failed to parse XML document: not well-formed"
  | .binding text => "Invalid variable binding '" ++ text ++ "', expected NAME=VALUE"
  | .query error => error.message

/-- Why a file that does not exist cannot be read. -/
def Failure.absentFile : Failure := .file "No such file or directory (os error 2)"

/-- What is shown for a request. -/
structure Answer where
  /-- The text. -/
  text : String
  /-- Whether the program stops behind it. -/
  crashed : Bool

/-- The line that shows the value of an expression. -/
def valueLine (s : Session) (expression : String) : Except Failure Answer :=
  match s.evaluate expression with
  | (.ok value, s) => .ok ⟨s.describe value ++ "\n", false⟩
  | (.error .crash, _) => .ok ⟨"", true⟩
  | (.error e, _) => .error (.query e)

namespace Request

/-- Binds a variable to a text. The first equals sign parts them. -/
def bind (c : Context) (binding : String) : Except Failure Context :=
  match Text.splitOnce '=' binding.toList with
  | none => .error (.binding binding)
  | some (name, value) =>
    match c.setVariable (String.ofList name) (.string (String.ofList value)) with
    | .ok c => .ok c
    | .error _ => .error (.binding binding)

/-- The context that a document gives. -/
def contextOf : Option String → Except Failure Context
  | none => .ok {}
  | some text =>
    match Tree.ofMarkup? text with
    | some tree => .ok (Context.setDocument { forest := #[tree] } ⟨0, 0⟩)
    | none => .error .markup

/-- The session that a request asks for, with the text of the document. -/
def session (r : Request) (document : Option String) : Except Failure Session := do
  let context ← r.bindings.foldlM bind (← contextOf document)
  return ⟨.library, context⟩

/-- All that is shown for a request, with the text of the document and the input. -/
def answer (r : Request) (document : Option String) (input : String) :
    Except Failure Answer := do
  let s ← r.session document
  match r.expression with
  | some expression => valueLine s expression
  | none => return ⟨s.transcript input, s.crashes input⟩

end Request

/-- How the command is used. -/
def Task.usage : String :=
  "Embeddable XPath-family expression interpreter with an XML host and REPL\n\n" ++
  "Usage: quarry [OPTIONS] [EXPR]\n\n" ++
  "Arguments:\n" ++
  "  [EXPR]  Expression to evaluate; starts a REPL when omitted\n\n" ++
  "Options:\n" ++
  "  -d, --doc <DOC>         XML document that becomes the context item\n" ++
  "  -v, --var <NAME=VALUE>  Binds a string variable, e.g. `--var limit=10`\n" ++
  "  -h, --help              Print help\n" ++
  "  -V, --version           Print version\n"

/-- The name and the version of the command. -/
def Task.versionText : String := "quarry 0.1.0\n"

/-- The exit code of a program that stopped in the middle. -/
def crashCode : Nat := 101

/-- What a run of the command leaves. -/
structure Outcome where
  /-- Zero for an answer, one for an error, two for arguments that mean nothing. -/
  exitCode : Nat
  /-- What is shown. -/
  output : String
  /-- What is shown of errors. The report of a crash tells where the program was, and is left out. -/
  errors : String
  deriving DecidableEq

namespace Outcome

/-- The outcome of an error. -/
def ofError (e : Failure) : Outcome := ⟨1, "", "error: " ++ e.message ++ "\n"⟩

/-- The outcome of arguments that mean nothing. -/
def misuse : Outcome := ⟨2, "", "error: invalid arguments\n\nUsage: quarry [OPTIONS] [EXPR]\n"⟩

/-- The outcome of an answer. -/
def ofAnswer : Except Failure Answer → Outcome
  | .ok a => ⟨if a.crashed then crashCode else 0, a.text, ""⟩
  | .error e => ofError e

end Outcome

namespace Task

/-- The outcome of a task, given what files hold and what the input is. -/
def outcome (read : String → Except Failure String) (input : String) : Task → Outcome
  | .help => ⟨0, usage, ""⟩
  | .version => ⟨0, versionText, ""⟩
  | .answer r => Outcome.ofAnswer do r.answer (← r.document.mapM read) input

end Task

end TreeQuery.Command
