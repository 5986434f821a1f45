import DragonWare.Paging
import DragonWare.Strings

/-!
# What the boot loader says

`sys/init/bootinfo.c`. The modules are copied to a table and the command line to an array, both of a
fixed size, and options are looked up among the words of the command line. A store or a load outside
the table or the array has no result.
-/

namespace DragonWare

def maxBootModules : ℕ := 32

/-- `MAX_CMDLINE`, and the size of `boot_cmdline`. -/
def maxCmdline : ℕ := 512

/-- `boot_modules` and `n_boot_modules`. -/
structure BootModules where
  table : List MultibootModule
  count : ℕ
  deriving DecidableEq

/-- The loop of `RegisterBootModules` from `i` on, with the modules still to come. -/
def registerFrom : List MultibootModule → ℕ → List MultibootModule → Option (List MultibootModule)
  | [], _, table => some table
  | m :: mods, i, table =>
    if i < table.length then registerFrom mods (i + 1) (table.set i m) else none

/-- The count is the boot loader's, whatever its flags say. -/
def registerBootModules (bi : BootInfo) : Option BootModules :=
  (registerFrom bi.mods 0 (List.replicate maxBootModules ⟨0#32, 0#32⟩)).map fun table =>
    ⟨table, bi.mods.length⟩

def getBootModuleAt (b : BootModules) (index : ℕ) : Except Status MultibootModule :=
  if b.count ≤ index then .error .outOfBounds else .ok (b.table.getD index ⟨0#32, 0#32⟩)

def space : BitVec 8 := 0x20

/-- `while (*iter == ' ') iter++`, with what is left of the array from `iter` on. -/
def skipSpaces : List (BitVec 8) → Option (List (BitVec 8))
  | [] => none
  | c :: cs => if c = space then skipSpaces cs else some (c :: cs)

/-- `while (*iter != ' ' && *iter != '\0') iter++`. -/
def skipWord : List (BitVec 8) → Option (List (BitVec 8))
  | [] => none
  | c :: cs => if c ≠ space ∧ c ≠ 0 then skipWord cs else some (c :: cs)

/-- The loop of `BootOptionProvided`, for at most `fuel` words. -/
def bootOptionFrom (opt : CString) : ℕ → List (BitVec 8) → Option Bool
  | 0, _ => none
  | _ + 1, [] => none
  | fuel + 1, c :: cs =>
    if c = 0 then some false
    else do
      let start ← skipSpaces (c :: cs)
      if start.headD 0 = 0 then return false
      else
        let iter ← skipWord start
        if start.length - iter.length = opt.chars.length
            ∧ strcmp opt.at (start.takeWhile (· ≠ 0)) = 0 then return true
        else bootOptionFrom opt fuel iter

/-- `BootOptionProvided` after `RegisterBootInformation`. Each round passes a character of the
array. -/
def bootOptionProvided (cmdline : Option CString) (opt : CString) : Option Bool :=
  match cmdline with
  | none => some false
  | some line => bootOptionFrom opt (maxCmdline + 1) (strncpy line.at maxCmdline)

end DragonWare
