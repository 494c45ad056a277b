import Sp2Module.Pfs0
import Sp2Module.Walk

/-!
# The files behind the paths

The name of an entry is put behind the target directory as it is, and the file system takes it
apart: what stands between two separators is a name, nothing, or a step to this or the directory
above. Paths that are not the same may lead to one file, and what is written last is what is there.
-/

namespace Sp2Module.Pfs0

open Walk

/-! ### Paths -/

def isSeparator (c : Char) : Bool := c = '\\' || c = '/'

def pieces (path : String) : List String :=
  (path.toList.splitOnP isSeparator).map String.ofList

def pieceStep (piece : String) : Step String :=
  if piece = "" ∨ piece = "." then .stay else if piece = ".." then .up else .down piece

/-- What the file system makes of the pieces of a name (their case, dots and blanks at an end), and
the directories and the name that a path leads to from the root, if it takes the path. -/
structure FileSystem where
  spell : List String → List String
  place : String → Option (List String)

namespace FileSystem

def steps (fs : FileSystem) (name : String) : List (Step String) :=
  (fs.spell (pieces name)).map pieceStep

def takes (fs : FileSystem) (p : String) : Bool := (fs.place p).isSome

/-- Paths below `dirPath` are looked up from the directory `dir` on. -/
def LooksUp (fs : FileSystem) (dirPath : String) (dir : List String) : Prop :=
  ∀ name p, fs.place (path dirPath name) = some p → p = walk dir (fs.steps name)

/-- Every path is relative to the current directory. -/
def relativeTo (current : List String) : FileSystem where
  spell := id
  place := fun path => some (walk current ((pieces path).map pieceStep))

end FileSystem

theorem pieces_path (dirPath name : String) :
    pieces (path dirPath name) = pieces dirPath ++ pieces name := by
  have htoList : (path dirPath name).toList = dirPath.toList ++ '\\' :: name.toList := by
    rw [path, String.toList_append, String.toList_append, List.append_assoc]
    rfl
  rw [pieces, htoList, List.splitOnP_append_cons _ _ (by decide), List.map_append]
  rfl

theorem looksUp_relativeTo (current : List String) (dirPath : String) :
    (FileSystem.relativeTo current).LooksUp dirPath
      (walk current ((pieces dirPath).map pieceStep)) := by
  intro name p hp
  rw [← Option.some.inj hp, pieces_path, List.map_append, walk_append]
  rfl

/-! ### What is written -/

namespace FileSystem

/-- `File.WriteAllBytes`, where the file system takes the path. -/
def write (fs : FileSystem) (tree : List String → Option Bytes) (f : String × Bytes) :
    List String → Option Bytes :=
  match fs.place f.1 with
  | none => tree
  | some p => Function.update tree p (some f.2)

variable {fs : FileSystem} {tree : List String → Option Bytes} {l : List (String × Bytes)}
  {p : List String}

theorem foldl_write_of_ne (h : ∀ f ∈ l, fs.place f.1 ≠ some p) :
    l.foldl fs.write tree p = tree p := by
  induction l generalizing tree with
  | nil => rfl
  | cons f l ih =>
    rw [List.foldl_cons, ih fun g hg => h g (List.mem_cons_of_mem f hg), write]
    cases hf : fs.place f.1 with
    | none => rfl
    | some q =>
      have hne : p ≠ q := by
        rintro rfl
        exact h f List.mem_cons_self hf
      exact Function.update_of_ne hne _ _

theorem foldl_write_of_mem {f : String × Bytes} (hnd : (l.map fun f => fs.place f.1).Nodup)
    (hf : f ∈ l) (hp : fs.place f.1 = some p) : l.foldl fs.write tree p = some f.2 := by
  induction l generalizing tree with
  | nil => exact absurd hf List.not_mem_nil
  | cons g l ih =>
    obtain ⟨hg, hnd⟩ := List.nodup_cons.mp hnd
    rw [List.foldl_cons]
    rcases List.mem_cons.mp hf with rfl | hf
    · -- what comes later goes to other places
      rw [foldl_write_of_ne, write, hp]
      · exact Function.update_self _ _ _
      · intro g hmem hplace
        exact hg (List.mem_map.mpr ⟨g, hmem, hplace.trans hp.symm⟩)
    · exact ih hnd hf

end FileSystem

end Sp2Module.Pfs0
