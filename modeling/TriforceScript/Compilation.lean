import TriforceScript.Fault

/-!
# Compilations

From a source text to JavaScript: tokens, program and code of a whole file, or
the code of a snippet.
-/

namespace TriforceScript

/-- Reads a program from a source text. -/
def parse (source : Bytes) : Noted (Except Fault Program) :=
  match scan source with
  | .error fault => ⟨[], .error (.scan fault)⟩
  | .ok tokens =>
      let reading := readTokens tokens
      ⟨reading.notes, reading.result.mapError .parse⟩

/-- A source text on every step of its way. -/
structure Compilation where
  /-- The tokens, the last of them for the end. -/
  tokens : List Token
  /-- The program. -/
  program : Program
  /-- The JavaScript file. -/
  code : Bytes

/-- Compiles a whole source text. -/
def compile (source : Bytes) : Noted (Except Fault Compilation) :=
  match scan source with
  | .error fault => ⟨[], .error (.scan fault)⟩
  | .ok tokens =>
      let reading := readTokens tokens
      ⟨reading.notes, do
        let program ← reading.result.mapError Fault.parse
        let code ← (JavaScript.file program).mapError Fault.emit
        return ⟨tokens, program, code⟩⟩

/-- The JavaScript file of a source text. -/
def compileText (source : Bytes) : Except Fault Bytes :=
  (compile source).result.map Compilation.code

/-- The JavaScript statements of a source text that is no file of its own. -/
def compileSnippet (source : Bytes) : Except Fault Bytes := do
  let program ← (parse source).result
  (JavaScript.statements program).mapError Fault.emit

end TriforceScript
