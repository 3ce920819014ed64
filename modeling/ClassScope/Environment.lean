import ClassScope.Disk.Basic

/-!
What is taken from the surrounding process: where the platform is installed, and where class indexes are
kept when nothing else is configured.
-/
namespace ClassScope

structure Environment where
  javaHome : Option Path := none
  /-- Directories of programs, with colons between them. -/
  programs : Option Bytes := none
  indexDir : Option Path := none
  temporary : Path := Path.ofString "tmp"
  deriving Repr, DecidableEq, Inhabited

namespace Environment

/-- The parts of a list with colons between them. -/
def splitList : Bytes → List Bytes
  | [] => [[]]
  | b :: bs =>
      if b = 0x3A then [] :: splitList bs
      else
        match splitList bs with
        | part :: parts => (b :: part) :: parts
        | [] => [[b]]

/-- The first directory of programs that holds `java`. -/
def javaProgram? (env : Environment) (d : Disk) : Option Path :=
  ((env.programs.map splitList).getD []).findSome? fun dir =>
    let program := Path.join ⟨dir⟩ (Path.ofString "java")
    if d.isProgram program then some program else none

/-- The named installation if it is there, else the one whose program directory holds `java`. -/
def platformHome? (env : Environment) (d : Disk) : Option Path :=
  match env.javaHome.filter fun home => (Utf8.decodeChars home.bytes).isOk && d.has home with
  | some home => some home
  | none => do
      let program ← env.javaProgram? d
      let dir ← program.parent?
      dir.parent?

def defaultIndexDir (env : Environment) : Path :=
  env.indexDir.getD
    ((env.temporary.join (Path.ofString "kls")).join (Path.ofString "class-index"))

end Environment

end ClassScope
