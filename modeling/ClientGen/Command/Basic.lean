import ClientGen.Files.Tree
import ClientGen.Unicode.Blank

/-
  ClientGen.Command.Basic — command lines, and how commands end.

  A command line is words between blanks: the first names a program, and the others are its
  arguments as they stand. There are no quotes, no variables and no patterns in it.
-/

namespace ClientGen

structure CommandResult where
  /-- Negative when the command was killed. -/
  exitCode : Int
  out : ByteArray
  err : ByteArray

namespace CommandResult

def isSuccess (r : CommandResult) : Bool := r.exitCode == 0

def printed (s : String) : CommandResult := ⟨0, s.toUTF8, .empty⟩

def failed (exitCode : Int) (message : String) : CommandResult := ⟨exitCode, .empty, message.toUTF8⟩

def ended (exitCode : Int) : CommandResult := ⟨exitCode, .empty, .empty⟩

/-- One command and then another. -/
def followedBy (a b : CommandResult) : CommandResult := ⟨b.exitCode, a.out ++ b.out, a.err ++ b.err⟩

end CommandResult

inductive CommandError where
  | empty
  | notStarted (line : String) (cause : FileError)
  deriving DecidableEq, Repr

def CommandError.message : CommandError → String
  | .empty => "Post-processing error: Empty command line"
  | .notStarted line cause => "Post-processing error: Failed to execute command '" ++ line ++ "': " ++ cause.message

/-- The words of a command line. -/
def commandWords (line : String) : List String :=
  ((line.toList.splitOnP Unicode.isBlank).filter (!·.isEmpty)).map String.ofList

/-- A program is given the directory it works in and its arguments. -/
abbrev Program := FileTree → String → List String → FileTree × CommandResult

/-- The programs that can be named. -/
abbrev Programs := String → Option Program

/-- Run a command line in a directory. -/
def runCommand (programs : Programs) (t : FileTree) (directory line : String) :
    FileTree × Except CommandError CommandResult :=
  match commandWords line with
  | [] => (t, .error .empty)
  | name :: arguments =>
    match programs name with
    | some program =>
      let (t, result) := program t directory arguments
      (t, .ok result)
    | none =>
      let there := name.toList.contains '/' && (t.stat (Path.join directory name)).toOption.isSome
      (t, .error (.notStarted line (if there then .denied else .notFound)))

end ClientGen
