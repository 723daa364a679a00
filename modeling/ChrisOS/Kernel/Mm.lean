import ChrisOS.Lib.Loop
import ChrisOS.Lib.Word

/-! The kernel heap of kernel/mm.c over word-addressed memory.

A block header is three consecutive words: size, free flag and link. Loops over
the block list follow links found in memory, so they take an iteration budget
and have no outcome when it runs out.
-/

set_option autoImplicit false

namespace ChrisOS.Kernel.Mm
open ChrisOS.Lib

def heapStart : Nat := 0x200000
def heapSize : Nat := 0x100000
def align : Nat := 8

/-- BLOCK_HDR: three 32-bit fields. -/
def blockHdr : Nat := 12

/-- The words of memory by address, and the static pointer heap_head. -/
structure Heap where
  mem : Nat → Nat
  heapHead : Nat

namespace Heap

def size (h : Heap) (b : Nat) : Nat := h.mem b
def free (h : Heap) (b : Nat) : Nat := h.mem (b + 4)
def next (h : Heap) (b : Nat) : Nat := h.mem (b + 8)

def setSize (h : Heap) (b v : Nat) : Heap := { h with mem := Function.update h.mem b v }
def setFree (h : Heap) (b v : Nat) : Heap := { h with mem := Function.update h.mem (b + 4) v }
def setNext (h : Heap) (b v : Nat) : Heap := { h with mem := Function.update h.mem (b + 8) v }

end Heap

def alignUp (n : Nat) : Nat := sub32 (add32 n align) 1 &&& not32 (align - 1)

def mmInit (h : Heap) : Heap :=
  let h := { h with heapHead := heapStart }
  let h := h.setSize heapStart (heapSize - blockHdr)
  let h := h.setFree heapStart 1
  h.setNext heapStart 0

/-- The body of a hit in kmalloc: split if a header and `align` bytes remain, then take. -/
def take (h : Heap) (b size : Nat) : Heap :=
  -- a rest too small for a block of its own stays with this one
  let h :=
    if h.size b ≥ add32 (add32 size blockHdr) align then
      let split := add32 (add32 b blockHdr) size
      let h := h.setSize split (sub32 (sub32 (h.size b) size) blockHdr)
      let h := h.setFree split 1
      let h := h.setNext split (h.next b)
      let h := h.setNext b split
      h.setSize b size
    else h
  h.setFree b 0

def kmallocLoop (size : Nat) : Nat → Heap → Nat → Option (Heap × Nat)
  | 0, _, _ => none
  | budget + 1, h, b =>
    if b = 0 then some (h, 0)
    else if h.free b ≠ 0 ∧ h.size b ≥ size then some (take h b size, add32 b blockHdr)
    else kmallocLoop size budget h (h.next b)

/-- The heap and the pointer returned, 0 when the request fails. -/
def kmalloc (h : Heap) (size budget : Nat) : Option (Heap × Nat) :=
  if size = 0 then some (h, 0)
  else kmallocLoop (alignUp size) budget h h.heapHead

/-- Absorb the next block into `cur`. -/
def absorb (h : Heap) (cur : Nat) : Heap :=
  let h := h.setSize cur (add32 (h.size cur) (add32 blockHdr (h.size (h.next cur))))
  h.setNext cur (h.next (h.next cur))

def kfreeLoop : Nat → Heap → Nat → Option Heap
  | 0, _, _ => none
  | budget + 1, h, cur =>
    if cur = 0 then some h
    else if h.free cur ≠ 0 ∧ h.next cur ≠ 0 ∧ h.free (h.next cur) ≠ 0 then
      -- cur stays: what now follows it may be free as well
      kfreeLoop budget (absorb h cur) cur
    else kfreeLoop budget h (h.next cur)

def kfree (h : Heap) (ptr budget : Nat) : Option Heap :=
  if ptr = 0 then some h
  else
    -- ptr is trusted: nothing checks that a block starts there
    let h := h.setFree (sub32 ptr blockHdr) 1
    kfreeLoop budget h h.heapHead

def mmUsedLoop (h : Heap) : Nat → Nat → Nat → Option Nat
  | 0, _, _ => none
  | budget + 1, used, b =>
    if b = 0 then some used
    else mmUsedLoop h budget (if h.free b = 0 then add32 used (add32 blockHdr (h.size b)) else used) (h.next b)

def mmUsed (h : Heap) (budget : Nat) : Option Nat := mmUsedLoop h budget 0 h.heapHead

def mmFreeLoop (h : Heap) : Nat → Nat → Nat → Option Nat
  | 0, _, _ => none
  | budget + 1, free, b =>
    if b = 0 then some free
    else mmFreeLoop h budget (if h.free b ≠ 0 then add32 free (h.size b) else free) (h.next b)

def mmFree (h : Heap) (budget : Nat) : Option Nat := mmFreeLoop h budget 0 h.heapHead

/-- A block as the list shows it: its address and its three header fields. -/
structure Block where
  addr : Nat
  size : Nat
  free : Nat
  next : Nat
  deriving DecidableEq, Repr

/-- Read the block list out of memory, following links from heap_head. -/
def blocksFrom (h : Heap) : Nat → Nat → Option (List Block)
  | 0, _ => none
  | budget + 1, b =>
    if b = 0 then some []
    else (blocksFrom h budget (h.next b)).map fun rest => ⟨b, h.size b, h.free b, h.next b⟩ :: rest

def blocks (h : Heap) (budget : Nat) : Option (List Block) := blocksFrom h budget h.heapHead

end ChrisOS.Kernel.Mm
