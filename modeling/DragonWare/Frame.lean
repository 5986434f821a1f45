import DragonWare.Lib.Bitmap
import DragonWare.Regions

/-!
# The physical frame manager

`sys/mem/frame.c`. Four gigabytes of 4 KiB frames, one bit each; a set bit is a frame in use.
Addresses have 32 bits, so the loop that walks a region wraps at `2 ^ 32`, and where the counter
never reaches the end there is no result at any fuel.
-/

namespace DragonWare

def bitmapWords : ℕ := 32768

structure FrameManager where
  bitmap : ℕ → BitVec 32
  highestAddr : ℕ

namespace FrameManager

def markFrameAvailable (m : FrameManager) (frameaddr : ℕ) : FrameManager :=
  if frameaddr < 2 * frameSize then m
  else if m.highestAddr < frameaddr then m
  else { m with bitmap := Bitmap.clearBit m.bitmap (frameaddr / frameSize) }

def markFrameReserved (m : FrameManager) (frameaddr : ℕ) : FrameManager :=
  { m with bitmap := Bitmap.setBit m.bitmap (frameaddr / frameSize) }

def isFrameAllocated (m : FrameManager) (frameaddr : ℕ) : Bool :=
  Bitmap.testBit m.bitmap (frameaddr / frameSize)

/-- The first frame whose bit is clear in the `words` words from `first` on, or 0. -/
def firstFreeFrame (m : FrameManager) (words first : ℕ) : ℕ :=
  match Bitmap.scanClear m.bitmap words first with
  | some n => n * frameSize
  | none => 0

/-- Words 8 and up hold the frames from 1 MiB on. -/
def getFirstFreeHighFrame (m : FrameManager) : ℕ := m.firstFreeFrame (bitmapWords - 8) 8

def getFirstFreeLowFrame (m : FrameManager) : ℕ := m.firstFreeFrame 8 0

def allocateFrame (m : FrameManager) : ℕ × FrameManager :=
  (m.getFirstFreeHighFrame, m.markFrameReserved m.getFirstFreeHighFrame)

def allocateLowMemory (m : FrameManager) : ℕ × FrameManager :=
  (m.getFirstFreeLowFrame, m.markFrameReserved m.getFirstFreeLowFrame)

/-- `FreeFrame`, in a debug build or not. The only failure is the debug build's assertion. -/
def freeFrame (debug : Bool) (m : FrameManager) (frameaddr : ℕ) : Option FrameManager :=
  if debug ∧ frameaddr < 2 * frameSize then some m
  else if debug ∧ frameaddr % frameSize ≠ 0 then none
  else if !m.isFrameAllocated frameaddr then some m
  else some (m.markFrameAvailable frameaddr)

/-- The inner loop of `InitFrameManager`, from `j` up to `stop`. -/
def markRegion (stop : ℕ) : ℕ → ℕ → FrameManager → Option FrameManager
  | 0, _, _ => none
  | fuel + 1, j, m =>
    if j < stop then markRegion stop fuel ((j + frameSize) % 2 ^ 32) (m.markFrameAvailable j)
    else some m

def addRegion (fuel : ℕ) (m : FrameManager) (r : MemoryRegion) : Option FrameManager :=
  if !r.available then some m
  else
    let stop := r.stop.toNat
    markRegion stop fuel r.start.toNat
      (if m.highestAddr < stop then { m with highestAddr := stop } else m)

/-- The state before any region is looked at: every bit set, no address seen. -/
def blank : FrameManager := ⟨fun _ => BitVec.allOnes 32, 0⟩

/-- `InitFrameManager` stops the machine on an empty table. Each region's loop has `fuel`
iterations. -/
def initFrameManager (fuel : ℕ) (regions : List MemoryRegion) : Option FrameManager :=
  if regions = [] then none else regions.foldlM (addRegion fuel) blank

end FrameManager

/-- What callers do with the manager once it is up. -/
inductive FrameOp
  | allocateFrame
  | allocateLowMemory
  | freeFrame (frameaddr : ℕ)
  deriving DecidableEq, Repr

/-- One call, with the frames handed out and not yet given back. A free names one of them. -/
def frameStep (debug : Bool) (s : FrameManager × List ℕ) :
    FrameOp → Option (FrameManager × List ℕ)
  | .allocateFrame =>
    let r := s.1.allocateFrame
    some (r.2, if r.1 = 0 then s.2 else r.1 :: s.2)
  | .allocateLowMemory =>
    let r := s.1.allocateLowMemory
    some (r.2, if r.1 = 0 then s.2 else r.1 :: s.2)
  | .freeFrame a =>
    if a ∈ s.2 then (s.1.freeFrame debug a).map fun m => (m, s.2.erase a) else none

end DragonWare
