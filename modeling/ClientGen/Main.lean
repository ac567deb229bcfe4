import ClientGen.CommandLine

/-
  ClientGen.Main — the program.

  A run works on a tree of files. The program puts what a run looks at into the tree, runs, and
  writes back what the run wrote. It starts no formatter.
-/

namespace ClientGen.Program

def usage : String :=
  "Usage: sdkgen generate <SPEC> --out <OUT> --module <MODULE> --package <PACKAGE> [--name <NAME>] " ++
    "[--format-command <COMMAND>] [--skip-format]"

/-- Put what is at a path into the tree. -/
def look (t : FileTree) (path : String) : IO FileTree := do
  let here := (← IO.currentDir) / path
  if ← here.isDir then return (t.ensureDirectory path).1
  else if ← here.pathExists then
    let content ← IO.FS.readBinFile here
    let t := (t.ensureDirectory ((Path.parent? path).getD "")).1
    return (t.writeFile path content).toOption.getD t
  else return t

def lookAround (r : Request) : IO FileTree :=
  [r.source, r.directory, Path.join r.directory "go.mod"].foldlM look []

/-- Write what is new or different. -/
def writeBack (before after : FileTree) : IO Unit := do
  let top ← IO.currentDir
  for (place, entry) in after do
    match entry, KeyMap.get? before place with
    | .directory, some .directory => pure ()
    | .directory, _ => IO.FS.createDirAll (top / place)
    | .file content, some (.file old) => if content != old then IO.FS.writeBinFile (top / place) content
    | .file content, _ => IO.FS.writeBinFile (top / place) content

def generate (r : Request) : IO UInt32 := do
  let before ← lookAround r
  let ended := Run.execute defaultFuel r before
  match ended with
  | .ok report after =>
    writeBack before after
    IO.println s!"Generated {report.artifacts} files in {report.directory}"
    return 0
  | .error e after =>
    writeBack before after
    IO.eprintln s!"Error: Failed to generate SDK from {r.source}"
    IO.eprintln s!"\nCaused by:\n    {CommandLine.causeLine e}"
    return 1

end ClientGen.Program

open ClientGen in
def main (arguments : List String) : IO UInt32 := do
  match CommandLine.read arguments with
  | .generate r => Program.generate r
  | .information =>
    IO.println Program.usage
    return 0
  | .misused =>
    IO.eprintln Program.usage
    return 2
