import ClientGen.Command.Basic
import ClientGen.Json.Reader

/-
  ClientGen.Command.Programs — programs that work on the tree alone.

  These are the small ones that print, show and touch files. There is no formatter among them.
-/

namespace ClientGen.Programs

def ofBytes (bytes : List Nat) : ByteArray := ⟨(bytes.map UInt8.ofNat).toArray⟩

/-! ## Escapes -/

def isOctal (c : Char) : Bool := '0' ≤ c && c ≤ '7'

def octalValue (digits : List Char) : Nat := digits.foldl (fun n c => n * 8 + Json.digitValue c) 0

def letterByte? (c : Char) : Option Nat :=
  [('\\', 92), ('"', 34), ('a', 7), ('b', 8), ('e', 27), ('f', 12), ('n', 10), ('r', 13), ('t', 9), ('v', 11)].lookup c

/-- The bytes of a text in which a backslash starts an escape, and whether `\c` ended it. -/
def unescape : List Char → List Nat × Bool
  | [] => ([], false)
  | '\\' :: c :: rest =>
    if c = 'c' then ([], true)
    else
      match letterByte? c with
      | some b =>
        let (bytes, stop) := unescape rest
        (b :: bytes, stop)
      | none =>
        if isOctal c then
          let digits := (c :: rest).take 3 |>.takeWhile isOctal
          let (bytes, stop) := unescape (rest.drop (digits.length - 1))
          (octalValue digits % 256 :: bytes, stop)
        else
          let (bytes, stop) := unescape rest
          (92 :: (Utf8.bytes c.toString.toUTF8 ++ bytes), stop)
  | c :: rest =>
    let (bytes, stop) := unescape rest
    (Utf8.bytes c.toString.toUTF8 ++ bytes, stop)
termination_by cs => cs.length
decreasing_by all_goals simp only [List.length_cons, List.length_drop]; omega

/-! ## Printing -/

def isEchoOption (word : String) : Bool :=
  match word.toList with
  | '-' :: c :: cs => (c :: cs).all ("neE".toList.contains ·)
  | _ => false

/-- Print the arguments; escapes are read only if asked for. -/
def echo (escapes : Bool) (arguments : List String) : CommandResult :=
  let options := (arguments.takeWhile isEchoOption).flatMap (·.toList)
  let text := " ".intercalate (arguments.dropWhile isEchoOption)
  let escapes := options.foldl (fun e c => if c = 'e' then true else if c = 'E' then false else e) escapes
  let (bytes, stop) := if escapes then unescape text.toList else (Utf8.bytes text.toUTF8, false)
  ⟨0, ofBytes (if stop || options.contains 'n' then bytes else bytes ++ [10]), .empty⟩

/-- One round of a format: the bytes, and the arguments that are left. -/
def formatOnce : List Char → List String → List Nat × List String
  | [], arguments => ([], arguments)
  | '%' :: '%' :: rest, arguments =>
    let (bytes, arguments) := formatOnce rest arguments
    (37 :: bytes, arguments)
  | '%' :: c :: rest, arguments =>
    let value := if c = 'd' then arguments.headD "0" else arguments.headD ""
    let (bytes, left) := formatOnce rest (arguments.drop 1)
    (Utf8.bytes value.toUTF8 ++ bytes, left)
  | c :: rest, arguments =>
    let literal := (c :: rest).takeWhile (· != '%')
    let (bytes, left) := formatOnce (rest.drop (literal.length - 1)) arguments
    ((unescape (if literal.isEmpty then [c] else literal)).1 ++ bytes, left)
termination_by cs => cs.length

/-- Repeat a format until the arguments are used up. -/
def formatAll (format : List Char) : Nat → List String → List Nat
  | 0, _ => []
  | rounds + 1, arguments =>
    let (bytes, left) := formatOnce format arguments
    if left.isEmpty || left.length = arguments.length then bytes else bytes ++ formatAll format rounds left

def printf : List String → CommandResult
  | [] => .failed 1 "printf: missing operand\nTry 'printf --help' for more information.\n"
  | format :: arguments => ⟨0, ofBytes (formatAll format.toList (arguments.length + 1) arguments), .empty⟩

/-! ## Files -/

/-- An error as programs report it: its message without the number behind it. -/
def reason (e : FileError) : String := Unicode.trim (String.ofList (e.message.toList.takeWhile (· != '(')))

def catFile (t : FileTree) (directory name : String) : CommandResult :=
  match t.readBytes (Path.join directory name) with
  | .ok content => ⟨0, content, .empty⟩
  | .error e => .failed 1 ("cat: " ++ name ++ ": " ++ reason e ++ "\n")

def cat (t : FileTree) (directory : String) (names : List String) : CommandResult :=
  names.foldl (fun r name =>
    let next := r.followedBy (catFile t directory name)
    { next with exitCode := max r.exitCode next.exitCode }) (.ended 0)

/-- The names in a directory, without those that start with a dot, or the name of a file. -/
def listOne (t : FileTree) (directory name : String) : CommandResult :=
  let path := Path.join directory name
  match t.stat path, t.namesIn path with
  | .ok (.file _), _ => .printed (name ++ "\n")
  | .ok .directory, .ok names =>
    .printed (String.join ((names.filter (·.toList.head? != some '.')).map (· ++ "\n")))
  | .error e, _ => .failed 2 ("ls: cannot access '" ++ name ++ "': " ++ reason e ++ "\n")
  | _, .error e => .failed 2 ("ls: cannot access '" ++ name ++ "': " ++ reason e ++ "\n")

def list (t : FileTree) (directory : String) (names : List String) : CommandResult :=
  match names with
  | [] => listOne t directory "."
  | names =>
    names.foldl (fun r name =>
      let next := r.followedBy (listOne t directory name)
      { next with exitCode := max r.exitCode next.exitCode }) (.ended 0)

/-- Make files that are missing. -/
def touch (t : FileTree) (directory : String) (names : List String) : FileTree × CommandResult :=
  names.foldl (fun (t, r) name =>
    let path := Path.join directory name
    match t.isThere path with
    | .ok true => (t, r)
    | _ =>
      match t.writeFile path .empty with
      | .ok t => (t, r)
      | .error e =>
        (t, { r.followedBy (.failed 1 ("touch: cannot touch '" ++ name ++ "': " ++ reason e ++ "\n")) with exitCode := 1 }))
    (t, .ended 0)

/-- A program that only looks at the tree. -/
def reading (run : FileTree → String → List String → CommandResult) : Program :=
  fun t directory arguments => (t, run t directory arguments)

def basic : Programs := fun name =>
  [("true", reading fun _ _ _ => .ended 0), ("false", reading fun _ _ _ => .ended 1),
    ("echo", reading fun _ _ arguments => echo false arguments), ("printf", reading fun _ _ arguments => printf arguments),
    ("cat", reading cat), ("ls", reading list), ("pwd", reading fun _ directory _ => .printed (directory ++ "\n")),
    ("touch", touch)].lookup name

end ClientGen.Programs
