import CodeAtlas.Command.Arguments
import CodeAtlas.Command.Run
import CodeAtlas.Listing
/-!
The command line. The standard input lists the files of the working directory with their syntax
trees; the contents of the files are read from the disk.
-/
namespace CodeAtlas

def Command.target? : Command → Option Path
  | .analyze r => r.output
  | .languages => none
  | .init r => some r.output

def readTree : IO FileTree := do
  let text ← (← IO.getStdin).readToEnd
  match Listing.read? text with
  | none => throw (IO.userError "malformed listing on the standard input")
  | some entries =>
    let mut contents : List (Path × ByteArray) := []
    for entry in entries do
      if let .file f := entry then
        contents := (f.path, ← IO.FS.readBinFile f.path.text) :: contents
    return .ofListing (fun p => ((contents.find? fun c => c.1 == p).map Prod.snd).getD .empty)
      entries

def save (r : Response) (p : Path) : IO Unit := do
  match r.exit, r.tree.read p with
  | .ok 0, .ok source | .ok 1, .ok source =>
    unless p.dir.text.isEmpty do IO.FS.createDirAll p.dir.text
    IO.FS.writeBinFile p.text source.bytes
  | _, _ => return ()

def carryOut (c : Command) : IO UInt32 := do
  let tree ← match c with
    | .languages => pure .empty
    | _ => readTree
  let r := c.run tree false
  if let some p := c.target? then save r p
  IO.print r.printed
  r.notes.forM fun line => IO.eprintln line
  match r.exit with
  | .ok code => return code.toUInt32
  | .error fault =>
    IO.eprintln ("Error: " ++ fault.message)
    return Response.failure.toUInt32

end CodeAtlas

def main (args : List String) : IO UInt32 := do
  match CodeAtlas.Invocation.read args with
  | .ok i => CodeAtlas.carryOut i.command
  | .error fault =>
    if fault.exitCode = 0 then IO.println fault.message else IO.eprintln fault.message
    return fault.exitCode.toUInt32
