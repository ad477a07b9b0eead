import PacketSchema.Build.Walk
import PacketSchema.Grammar.SyntaxError

/-!
From a text to a schema. What cannot be read has no schema; what can be read has one, together
with everything found wrong in it, and is let through to later stages only where nothing was.
-/

namespace PacketSchema

inductive ReadFailure where
  | missing
  | notText
deriving DecidableEq, Repr

def ReadFailure.text : ReadFailure → String
  | .missing => "No such file or directory (os error 2)"
  | .notText => "stream did not contain valid UTF-8"

inductive CompileError where
  | unreadable (failure : ReadFailure)
  | unparsed (error : Grammar.SyntaxError)
  | faulty (diagnostics : List Diagnostic)
deriving DecidableEq, Repr

def CompileError.message : CompileError → String
  | .unreadable failure => "IO: " ++ failure.text
  | .unparsed error => "Syntax: " ++ error.message
  | .faulty diagnostics =>
      toString diagnostics.length ++ " semantic error(s), first: " ++
        match diagnostics with
        | [] => ""
        | first :: _ => first.text

structure Compilation where
  schema : Schema
  diagnostics : List Diagnostic
deriving DecidableEq, Repr

namespace Compilation

def isValid (compilation : Compilation) : Bool := compilation.diagnostics.isEmpty

def validSchema (compilation : Compilation) : Except CompileError Schema :=
  if compilation.isValid then .ok compilation.schema
  else .error (.faulty compilation.diagnostics)

end Compilation

/-- Reads and builds a text; with `failFast` the building stops soon after the first fault. -/
def compile (failFast : Bool) (source : String) : Except Grammar.SyntaxError Compilation :=
  match Grammar.parse source with
  | .error error => .error error
  | .ok tree =>
      let build := tree.build failFast
      .ok ⟨build.schema, build.diagnostics⟩

/-- Compiles the contents of a file, or says why there is no text in it. A byte order mark is a
character like any other. -/
def compileFile : Option ByteArray → Except CompileError Compilation
  | none => .error (.unreadable .missing)
  | some bytes =>
      match String.fromUTF8? bytes with
      | none => .error (.unreadable .notText)
      | some source =>
          match compile false source with
          | .error error => .error (.unparsed error)
          | .ok compilation => .ok compilation

end PacketSchema
