import ClientGen.Command.Programs

/-
  ClientGen.Command.Shell — a shell for short scripts.

  A script is simple commands joined by `;`, `&&` and `||`. Words are split at blanks and at the
  field separator `IFS`; there are quotes, positional parameters and redirections of the two
  output streams, but no other variables, patterns, pipes or control structures.
-/

namespace ClientGen.Shell

/-- How a command follows the one before it. -/
inductive Joint where
  | always
  | onSuccess
  | onFailure

inductive Piece where
  | char (c : Char)
  | gap
  | joint (j : Joint)
  /-- A redirection; `toStream` when a stream is named behind it, not a file. -/
  | redirect (toStream : Bool)

/-- Stands for the number of the shell's own process. -/
def ownProcess : String := "$$"

structure Parameters where
  name : String
  arguments : List String

def Parameters.value (p : Parameters) (name : String) : String :=
  if name = "$" then ownProcess
  else
    match name.toNat? with
    | some 0 => p.name
    | some (n + 1) => (p.arguments[n]?).getD ""
    | none => ""

def isNameChar (c : Char) : Bool := c.isAlphanum || c == '_'

def substituted (p : Parameters) (quoted : Bool) (name : String) : List Piece :=
  if name = "IFS" && !quoted then [.gap] else (p.value name).toList.map .char

/-- The pieces of a script; `quote` is the quote that is open. -/
def pieces (p : Parameters) (quote : Option Char) : List Char → List Piece
  | [] => []
  | c :: rest =>
    if quote == some '\'' then if c = '\'' then pieces p none rest else .char c :: pieces p quote rest
    else if c = '"' then pieces p (if quote.isSome then none else some '"') rest
    else if c = '\\' then
      match rest with
      | d :: rest => .char d :: pieces p quote rest
      | [] => [.char c]
    else if c = '$' then
      match rest with
      | '\x7b' :: rest =>
        let name := rest.takeWhile isNameChar
        substituted p quote.isSome (String.ofList name) ++ pieces p quote (rest.drop (name.length + 1))
      | d :: rest =>
        if d = '$' || d.isDigit then substituted p quote.isSome d.toString ++ pieces p quote rest
        else if isNameChar d then
          let name := (d :: rest).takeWhile isNameChar
          substituted p quote.isSome (String.ofList name) ++ pieces p quote (rest.drop (name.length - 1))
        else .char c :: pieces p quote (d :: rest)
      | [] => [.char c]
    else if quote.isSome then .char c :: pieces p quote rest
    else if c = '\'' then pieces p (some c) rest
    else if c = ' ' || c = '\t' then .gap :: pieces p quote rest
    else if c = ';' || c = '\n' then .joint .always :: pieces p quote rest
    else
      match c, rest with
      | '&', '&' :: rest => .joint .onSuccess :: pieces p quote rest
      | '|', '|' :: rest => .joint .onFailure :: pieces p quote rest
      | '>', '&' :: rest => .redirect true :: pieces p quote rest
      | '>', rest => .redirect false :: pieces p quote rest
      | _, rest => .char c :: pieces p quote rest
termination_by cs => cs.length

inductive Target where
  | stream (n : Nat)
  | file (name : String)

structure Simple where
  joint : Joint
  words : List String
  /-- The streams that go elsewhere, in order. -/
  redirections : List (Nat × Target)

/-- A simple command as it is put together. -/
structure Draft where
  command : Simple
  /-- The word so far, the last character first. -/
  word : Option (List Char)
  /-- The stream that goes to what the word names, and whether it names a stream. -/
  redirect : Option (Nat × Bool)

def Draft.start (j : Joint) : Draft := ⟨⟨j, [], []⟩, none, none⟩

def Draft.closeWord (d : Draft) : Draft :=
  match d.word with
  | none => d
  | some cs =>
    let word := String.ofList cs.reverse
    match d.redirect with
    | none => { d with command := { d.command with words := d.command.words ++ [word] }, word := none }
    | some (n, toStream) =>
      let target := if toStream then .stream (word.toNat?.getD 1) else .file word
      ⟨{ d.command with redirections := d.command.redirections ++ [(n, target)] }, none, none⟩

/-- The simple commands of pieces. -/
def commands (d : Draft) : List Piece → List Simple
  | [] => [d.closeWord.command]
  | .char c :: rest => commands { d with word := some (c :: d.word.getD []) } rest
  | .gap :: rest => commands d.closeWord rest
  | .joint j :: rest => d.closeWord.command :: commands (.start j) rest
  | .redirect toStream :: rest =>
    match d.word with
    | some [c] =>
      if c.isDigit then commands { d with word := none, redirect := some (Json.digitValue c, toStream) } rest
      else commands { d.closeWord with redirect := some (1, toStream) } rest
    | _ => commands { d.closeWord with redirect := some (1, toStream) } rest

/-! ## Running -/

/-- How a shell is left: not at all, with a code, or killed. -/
inductive Ending where
  | goesOn
  | exits
  | killed

def killSignal (words : List String) : Bool := words.contains ownProcess

/-- Run one command without its redirections. -/
def runWords (t : FileTree) (directory : String) (last : Int) : List String → FileTree × CommandResult × Ending
  | [] => (t, .ended 0, .goesOn)
  | name :: arguments =>
    if name = "exit" then
      let code : Int := ((arguments.head?.bind String.toNat?).map (fun n => (n % 256 : Int))).getD last
      (t, .ended code, .exits)
    else if name = "kill" && killSignal arguments then (t, .ended (-1), .killed)
    else if name = ":" then (t, .ended 0, .goesOn)
    else if name = "echo" then (t, Programs.echo true arguments, .goesOn)
    else
      match Programs.basic name with
      | some program =>
        let (t, r) := program t directory arguments
        (t, r, .goesOn)
      | none => (t, .failed 127 ("sh: 1: " ++ name ++ ": not found\n"), .goesOn)

/-- Where a stream ends up: one of the two outputs, or a file. -/
def Target.ofStream (redirections : List (Nat × Target)) (n : Nat) : Target :=
  redirections.foldl (fun streams (from_, target) =>
    let target := match target with
      | .stream m => (streams.lookup m).getD (.stream m)
      | .file name => .file name
    (from_, target) :: streams) [(1, .stream 1), (2, .stream 2)] |>.lookup n |>.getD (.stream n)

def writeTo (t : FileTree) (directory : String) (target : Target) (content : ByteArray) :
    FileTree × ByteArray × ByteArray :=
  match target with
  | .stream 1 => (t, content, .empty)
  | .stream 2 => (t, .empty, content)
  | .stream _ => (t, .empty, .empty)
  | .file name => ((t.writeFile (Path.join directory name) content).toOption.getD t, .empty, .empty)

def runSimple (t : FileTree) (directory : String) (last : Int) (c : Simple) : FileTree × CommandResult × Ending :=
  let (t, r, ending) := runWords t directory last c.words
  let (t, out, err) := writeTo t directory (.ofStream c.redirections 1) r.out
  let (t, out', err') := writeTo t directory (.ofStream c.redirections 2) r.err
  (t, ⟨r.exitCode, out ++ out', err ++ err'⟩, ending)

def Joint.allows : Joint → Int → Bool
  | .always, _ => true
  | .onSuccess, code => code == 0
  | .onFailure, code => code != 0

def runAll (directory : String) (t : FileTree) (before : CommandResult) : List Simple → FileTree × CommandResult
  | [] => (t, before)
  | c :: rest =>
    if c.joint.allows before.exitCode then
      let (t, r, ending) := runSimple t directory before.exitCode c
      let soFar := before.followedBy r
      match ending with
      | .goesOn => runAll directory t soFar rest
      | .exits | .killed => (t, soFar)
    else runAll directory t before rest

/-- The shell as a program: only `-c` with a script. -/
def shell : Program := fun t directory arguments =>
  match arguments with
  | "-c" :: script :: rest =>
    let parameters : Parameters := ⟨rest.headD "sh", rest.drop 1⟩
    runAll directory t (.ended 0) (commands (.start .always) (pieces parameters none script.toList))
  | _ => (t, .ended 0)

/-- The programs that a run can name, by themselves or in a directory of programs. -/
def programs : Programs := fun name =>
  let bare := match Path.segments name with
    | ["", "bin", bare] => bare
    | ["", "usr", "bin", bare] => bare
    | _ => name
  if bare = "sh" then some shell else Programs.basic bare

end ClientGen.Shell
