import CodeAtlas.FileTree
/-!
A directory tree as a walk sees it. Links are left out or stand for what they lead to; a link that
leads nowhere or back to a directory above it is an obstacle, which the walk reports and passes.
-/
namespace CodeAtlas

inductive Sight where
  | file (source : Syntax.Source)
  | dir (entries : List (String × Sight))
  | obstacle (message : String)
  /-- A link that is not followed. -/
  | hidden
deriving Inhabited

/-- A directory that a walk is in: its place, and the path by which the walk came. -/
structure Visited where
  place : List String
  path : Path

namespace FileTree

mutual

/-- What a walk through the tree `whole` sees at the entry `e`. The entry is at a place and is
reached by a path, through the directories `above`, the innermost first. The walk follows at most
`links` more links to directories, or no link at all. -/
def sight (whole : FileTree) (follow : Bool) (links : Nat) (above : List Visited)
    (place : List String) (path : Path) (e : FileTree) : Sight :=
  match e with
  | file source => .file source
  | dir entries => .dir (sights whole follow links (⟨place, path⟩ :: above) place path entries)
  | link target =>
    if !follow then .hidden
    else
      match whole.locate (linkLimit - 1)
          (if Text.begins "/" target.text then [] else place.dropLast) (rawSteps target) with
      | .error fault =>
        .obstacle ("IO error for operation on " ++ path.text ++ ": " ++ fault.message)
      | .ok goal =>
        match whole.below? goal, above.find? (fun v => v.place == goal), links with
        | some (file source), _, _ => .file source
        | some (dir _), some v, _ =>
          .obstacle ("File system loop found: " ++ path.text ++ " points to an ancestor " ++
            v.path.text)
        | some (dir entries), none, n + 1 =>
          .dir (sights whole follow n (⟨goal, path⟩ :: above) goal path entries)
        | _, _, _ => .hidden
termination_by (links, sizeOf e)

def sights (whole : FileTree) (follow : Bool) (links : Nat) (above : List Visited)
    (place : List String) (path : Path) (entries : List (String × FileTree)) :
    List (String × Sight) :=
  match entries with
  | [] => []
  | (name, e) :: rest =>
    (name, sight whole follow links above (place ++ [name]) (path.join ⟨name⟩) e) ::
      sights whole follow links above place path rest
termination_by (links, sizeOf entries)

end

def walk (t : FileTree) (follow : Bool) (place : List String) (path : Path)
    (entries : List (String × FileTree)) : Sight :=
  .dir (t.sights follow t.dirCount [⟨place, path⟩] place path entries)

end FileTree

end CodeAtlas
