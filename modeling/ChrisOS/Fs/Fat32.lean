import ChrisOS.Drivers.Ata

/-! The FAT32 driver of fs/fat32.c, routine by routine.

Loops that follow links found on disk take an iteration budget. Loops with a
counter recurse on the number of rounds left. A C string is the list of its
bytes before the terminating NUL.
-/

set_option autoImplicit false

namespace ChrisOS.Fs.Fat32
open ChrisOS.Lib ChrisOS.Drivers.Ata

def fat32StartLba : Nat := 20480

/-- The fields of fat32_bpb_t that the driver reads. -/
structure Bpb where
  sectorsPerCluster : UInt8
  reservedSectors : UInt16
  fatCount : UInt8
  totalSectors32 : UInt32
  sectorsPerFat32 : UInt32
  rootCluster : UInt32
  signature : UInt8
  deriving DecidableEq, Repr

/-- The static variables of fat32.c. -/
structure Statics where
  bpb : Bpb
  fatStart : Nat
  dataStart : Nat
  rootCluster : Nat
  deriving DecidableEq, Repr

def loadBpb (f : Nat → UInt8) : Bpb where
  sectorsPerCluster := f 13
  reservedSectors := UInt16.ofNat (word16 f 14)
  fatCount := f 16
  totalSectors32 := UInt32.ofNat (word32 f 32)
  sectorsPerFat32 := UInt32.ofNat (word32 f 36)
  rootCluster := UInt32.ofNat (word32 f 44)
  signature := f 66

def Bpb.accepted (bpb : Bpb) : Bool := bpb.signature = 0x28 || bpb.signature = 0x29

/-- The static variables after fat32_init has read this BPB. A rejected one
leaves the three positions at their initial zero. -/
def mount (bpb : Bpb) : Statics :=
  if bpb.accepted then
    { bpb := bpb
      fatStart := bpb.reservedSectors.toNat
      dataStart := add32 bpb.reservedSectors.toNat (mul32 bpb.fatCount.toNat bpb.sectorsPerFat32.toNat)
      rootCluster := bpb.rootCluster.toNat }
  else { bpb := bpb, fatStart := 0, dataStart := 0, rootCluster := 0 }

namespace Statics

def spc (g : Statics) : Nat := g.bpb.sectorsPerCluster.toNat

def spf (g : Statics) : Nat := g.bpb.sectorsPerFat32.toNat

def clusterSize (g : Statics) : Nat := g.spc * 512

end Statics

def readSector (lba : Nat) (buf : Buf) (off : Nat) : Kern Buf := do
  let r ← ataReadSector (add32 fat32StartLba lba) buf off
  pure r.2

def writeSector (lba : Nat) (buf : Buf) (off : Nat) : Kern Unit := do
  let _ ← ataWriteSector (add32 fat32StartLba lba) buf off
  pure ()

def fat32Init : Kern Statics := do
  let buf ← kmalloc 512
  let buf ← readSector 0 buf 0
  let bpb := loadBpb buf.data
  kfree buf
  if bpb.accepted then
    terminalWritestring "fat32: mounted\n"
    pure (mount bpb)
  else
    terminalWritestring "fat32: bad signature\n"
    pure (mount bpb)

section
variable (g : Statics)

/-- The first sector of a cluster, relative to the volume. -/
def clusterLba (cluster : Nat) : Nat := add32 g.dataStart (mul32 (sub32 cluster 2) g.spc)

/-- Read the first `n` sectors of a run into consecutive pieces of the buffer. -/
def readSectors (lba off : Nat) : Nat → Buf → Kern Buf
  | 0, buf => pure buf
  | n + 1, buf => do
    let buf ← readSectors lba off n buf
    readSector (add32 lba n) buf (off + n * 512)

def writeSectors (lba : Nat) (buf : Buf) : Nat → Kern Unit
  | 0 => pure ()
  | n + 1 => do
    writeSectors lba buf n
    writeSector (add32 lba n) buf (n * 512)

def readCluster (cluster : Nat) (buf : Buf) (off : Nat) : Kern Buf :=
  readSectors (clusterLba g cluster) off g.spc buf

def writeCluster (cluster : Nat) (buf : Buf) : Kern Unit :=
  writeSectors (clusterLba g cluster) buf g.spc

/-! ### The file allocation table -/

def fatSector (cluster : Nat) : Nat := add32 g.fatStart (mul32 cluster 4 / 512)

def fatOffset (cluster : Nat) : Nat := mul32 cluster 4 % 512

def fatGet (cluster : Nat) : Kern Nat := do
  let buf ← kmalloc 512
  let buf ← readSector (fatSector g cluster) buf 0
  let val := word32 buf.data (fatOffset cluster) &&& 0x0FFFFFFF
  kfree buf
  pure val

def putWord (b : Buf) (off v : Nat) : Buf := { b with data := putWord32 b.data off v }

/-- Store 28 bits in an entry and keep its top four. -/
def entryWord (existing value : Nat) : Nat := (existing &&& 0xF0000000) ||| (value &&& 0x0FFFFFFF)

/-- The same sector in the second FAT, if there is one. -/
def writeMirror (lba : Nat) (buf : Buf) : Kern Unit :=
  if g.bpb.fatCount.toNat > 1 then writeSector lba buf 0 else pure ()

def fatSet (cluster value : Nat) : Kern Unit := do
  let buf ← kmalloc 512
  let buf ← readSector (fatSector g cluster) buf 0
  let off := fatOffset cluster
  let buf := putWord buf off (entryWord (word32 buf.data off) value)
  writeSector (fatSector g cluster) buf 0
  writeMirror g (add32 (fatSector g cluster) g.spf) buf
  kfree buf

/-- The first free entry of FAT sector `s` among the `rounds` entries from index `i` on. -/
def findFree (f : Nat → UInt8) (s : Nat) : Nat → Nat → Option Nat
  | 0, _ => none
  | rounds + 1, i =>
    -- entries 0 and 1 are reserved
    if add32 (mul32 s 128) i < 2 then findFree f s rounds (i + 1)
    else if word32 f (i * 4) &&& 0x0FFFFFFF = 0 then some i
    else findFree f s rounds (i + 1)

def fatAllocLoop : Nat → Nat → Kern Nat
  | 0, _ => pure 0
  | rounds + 1, s => do
    let buf ← kmalloc 512
    let buf ← readSector (add32 g.fatStart s) buf 0
    match findFree buf.data s 128 0 with
    | some i => do
      let buf := putWord buf (i * 4) ((word32 buf.data (i * 4) &&& 0xF0000000) ||| 0x0FFFFFFF)
      writeSector (add32 g.fatStart s) buf 0
      writeMirror g (add32 (add32 g.fatStart g.spf) s) buf
      kfree buf
      pure (add32 (mul32 s 128) i)
    | none => do
      kfree buf
      fatAllocLoop rounds (s + 1)

/-- A cluster taken from the free ones, or 0. -/
def fatAllocCluster : Kern Nat := fatAllocLoop g g.spf 0

/-- A number that the cluster loops take for a link. -/
def isLink (cluster : Nat) : Prop := 2 ≤ cluster ∧ cluster < 0x0FFFFFF8

instance (cluster : Nat) : Decidable (isLink cluster) := inferInstanceAs (Decidable (_ ∧ _))

def fatFreeChain : Nat → Nat → Kern Unit
  | 0, _ => diverge
  | budget + 1, cluster =>
    if isLink cluster then do
      -- the link is read before its entry is cleared
      let next ← fatGet g cluster
      fatSet g cluster 0
      fatFreeChain budget next
    else pure ()

/-! ### Names and directory entries -/

def upper (c : UInt8) : UInt8 := if 'a'.toNat ≤ c.toNat ∧ c.toNat ≤ 'z'.toNat then c - 32 else c

def dot : UInt8 := 0x2E

/-- The base-name loop: the bytes stored so far, and where `p` stands. -/
def copyBase : List UInt8 → Nat → (Nat → UInt8) → (Nat → UInt8) × List UInt8
  | [], _, f => (f, [])
  | c :: p, j, f =>
    if c ≠ 0 ∧ c ≠ dot ∧ j < 8 then copyBase p (j + 1) (Function.update f j (upper c)) else (f, c :: p)

def copyExtension : List UInt8 → Nat → (Nat → UInt8) → Nat → UInt8
  | [], _, f => f
  | c :: p, e, f => if c ≠ 0 ∧ e < 11 then copyExtension p (e + 1) (Function.update f e (upper c)) else f

abbrev FatName := Fin 11 → UInt8

def nameToFat83 (name : List UInt8) : FatName :=
  let spaces : Nat → UInt8 := fun _ => 0x20
  let base := copyBase name 0 spaces
  let field := match base.2 with
    | c :: p => if c = dot then copyExtension p 8 base.1 else base.1
    | [] => base.1
  fun i => field i

/-- The 11 name bytes of the directory entry at an offset. -/
def nameAt (f : Nat → UInt8) (off : Nat) : FatName := fun i => f (off + i)

/-- The scan of find_dir_entry: the matching offset and the first free one. -/
def scanEntries (f : Nat → UInt8) (fatname : FatName) : Nat → Nat → Option Nat → Option Nat × Option Nat
  | 0, _, free => (none, free)
  | rounds + 1, off, free =>
    -- 0x00: no entry from here on was ever used
    if f off = 0x00 then (none, free.or (some off))
    -- 0xE5: a deleted entry
    else if f off = 0xE5 then scanEntries f fatname rounds (off + 32) (free.or (some off))
    -- 0x0F: a piece of a long name
    else if f (off + 11) = 0x0F then scanEntries f fatname rounds (off + 32) free
    else if ∀ i : Fin 11, fatname i = nameAt f off i then (some off, free)
    else scanEntries f fatname rounds (off + 32) free

/-- `none` stands for -1. Callers that pass no free_off ignore the second part. -/
def findDirEntry (f : Nat → UInt8) (clusterSize : Nat) (fatname : FatName) : Option Nat × Option Nat :=
  scanEntries f fatname (clusterSize / 32) 0 none

def entryCluster (f : Nat → UInt8) (off : Nat) : Nat := word16 f (off + 20) * 2 ^ 16 + word16 f (off + 26)

def entrySize (f : Nat → UInt8) (off : Nat) : Nat := word32 f (off + 28)

/-- The 32 bytes that create and write store for an entry. -/
def entryBytes (fatname : FatName) (cluster size : Nat) (k : Nat) : UInt8 :=
  if h : k < 11 then fatname ⟨k, h⟩
  else if k = 11 then 0x20
  else if k < 20 then 0
  else if k < 22 then byteOf (cluster / 2 ^ 16 % 2 ^ 16) (k - 20)
  else if k < 26 then 0
  else if k < 28 then byteOf (cluster % 2 ^ 16) (k - 26)
  else byteOf size (k - 28)

def putEntry (b : Buf) (off : Nat) (fatname : FatName) (cluster size : Nat) : Buf :=
  { b with data := fun k => if off ≤ k ∧ k < off + 32 then entryBytes fatname cluster size (k - off) else b.data k }

def putByte (b : Buf) (off : Nat) (v : UInt8) : Buf := { b with data := Function.update b.data off v }

def flushDirSector (dirbuf : Buf) (off : Nat) : Kern Unit :=
  writeSector (add32 (clusterLba g g.rootCluster) (off / 512)) dirbuf (off / 512 * 512)

/-! ### The operations -/

/-- A 32-bit value taken for a C int. -/
def asInt (n : Nat) : Int := if n < 2 ^ 31 then n else n - 2 ^ 32

/-- Print up to `rounds` bytes of a name field, up to the first space. -/
def printField (f : Nat → UInt8) : Nat → Nat → Kern Unit
  | 0, _ => pure ()
  | rounds + 1, off =>
    if f off = 0x20 then pure ()
    else do
      terminalPutchar (f off)
      printField f rounds (off + 1)

/-- The dot and the extension of a name, if there is one. -/
def printExtension (f : Nat → UInt8) (off : Nat) : Kern Unit :=
  if f (off + 8) ≠ 0x20 then do
    terminalPutchar dot
    printField f 3 (off + 8)
  else pure ()

/-- The lines of fat32_ls from an offset on, and the number of entries printed. -/
def listEntries (f : Nat → UInt8) : Nat → Nat → Nat → Kern Nat
  | 0, _, count => pure count
  | rounds + 1, off, count =>
    if f off = 0x00 then pure count
    else if f off = 0xE5 then listEntries f rounds (off + 32) count
    else if f (off + 11) = 0x0F then listEntries f rounds (off + 32) count
    else do
      printField f 8 off
      printExtension f off
      terminalWritestring "  ("
      terminalWritestring (itoa (asInt (entrySize f off)))
      terminalWritestring " B)\n"
      listEntries f rounds (off + 32) (count + 1)

def fat32Ls : Kern Unit := do
  let buf ← kmalloc g.clusterSize
  let buf ← readCluster g g.rootCluster buf 0
  let count ← listEntries buf.data (g.clusterSize / 32) 0 0
  if count = 0 then do
    terminalWritestring "(empty)\n"
    kfree buf
  else kfree buf

def readFileLoop : Nat → Nat → Nat → Buf → Nat → Kern Buf
  | 0, _, _, _, _ => diverge
  | budget + 1, cluster, remaining, buf, off =>
    if isLink cluster ∧ remaining > 0 then do
      -- the last cluster too is read as a whole
      let buf ← readCluster g cluster buf off
      let chunk := if remaining > g.clusterSize then g.clusterSize else remaining
      let next ← fatGet g cluster
      readFileLoop budget next (remaining - chunk) buf (off + chunk)
    else pure buf

/-- The value returned and the caller's buffer. -/
def fat32ReadFile (budget : Nat) (name : List UInt8) (buf : Buf) : Kern (Int × Buf) := do
  let fatname := nameToFat83 name
  let dbuf ← kmalloc g.clusterSize
  let dbuf ← readCluster g g.rootCluster dbuf 0
  match (findDirEntry dbuf.data g.clusterSize fatname).1 with
  | none => do
    kfree dbuf
    pure (0, buf)
  | some off => do
    let cluster := entryCluster dbuf.data off
    let size := entrySize dbuf.data off
    kfree dbuf
    let buf ← readFileLoop g budget cluster size buf 0
    pure (asInt size, buf)

def fat32CreateFile (name : List UInt8) : Kern Nat := do
  let fatname := nameToFat83 name
  let buf ← kmalloc g.clusterSize
  let buf ← readCluster g g.rootCluster buf 0
  match findDirEntry buf.data g.clusterSize fatname with
  | (some _, _) => do
    terminalWritestring "touch: file already exists\n"
    kfree buf
    pure 0
  | (none, none) => do
    terminalWritestring "touch: directory full\n"
    kfree buf
    pure 0
  | (none, some freeOff) => do
    let buf := putEntry buf freeOff fatname 0 0
    flushDirSector g buf freeOff
    kfree buf
    pure 1

/-- The cluster image written for a file: the data, then zeros. -/
def fillData (b : Buf) (clusterSize : Nat) (data : Nat → UInt8) (size : Nat) : Buf where
  ptr := b.ptr
  data := fun k => if k < size then data k else if k < clusterSize then 0 else b.data k
  filled := fun _ => none

/-- The end of fat32_write_file: rewrite the entry and flush its sector. -/
def writeEntry (fatname : FatName) (dirbuf : Buf) (dirOff dataCluster size : Nat) : Kern Nat := do
  let dirbuf := putEntry dirbuf dirOff fatname dataCluster size
  flushDirSector g dirbuf dirOff
  kfree dirbuf
  pure 1

/-- fat32_write_file from the point where the entry's place is known. -/
def writeBody (fatname : FatName) (data : Nat → UInt8) (size : Nat) (dirbuf : Buf) (dirOff : Nat) : Kern Nat :=
  if size > 0 then do
    let dataCluster ← fatAllocCluster g
    if dataCluster = 0 then do
      terminalWritestring "write: disk full\n"
      kfree dirbuf
      pure 0
    else do
      let cbuf ← kmalloc g.clusterSize
      let cbuf := fillData cbuf g.clusterSize data size
      writeCluster g dataCluster cbuf
      kfree cbuf
      writeEntry g fatname dirbuf dirOff dataCluster size
  else writeEntry g fatname dirbuf dirOff 0 size

/-- `if (cluster >= 2) fat_free_chain(cluster);` -/
def freeOld (budget cluster : Nat) : Kern Unit :=
  if cluster ≥ 2 then fatFreeChain g budget cluster else pure ()

def fat32WriteFile (budget : Nat) (name : List UInt8) (data : Nat → UInt8) (size : Nat) : Kern Nat :=
  let fatname := nameToFat83 name
  if size > g.clusterSize then do
    terminalWritestring "write: file too large (max one cluster)\n"
    pure 0
  else do
    let dirbuf ← kmalloc g.clusterSize
    let dirbuf ← readCluster g g.rootCluster dirbuf 0
    match findDirEntry dirbuf.data g.clusterSize fatname with
    | (some dirOff, _) => do
      -- the old chain is gone before a new cluster is found
      freeOld g budget (entryCluster dirbuf.data dirOff)
      writeBody g fatname data size dirbuf dirOff
    | (none, none) => do
      terminalWritestring "write: directory full\n"
      kfree dirbuf
      pure 0
    | (none, some freeOff) => writeBody g fatname data size dirbuf freeOff

def fat32DeleteFile (budget : Nat) (name : List UInt8) : Kern Nat := do
  let fatname := nameToFat83 name
  let dirbuf ← kmalloc g.clusterSize
  let dirbuf ← readCluster g g.rootCluster dirbuf 0
  match (findDirEntry dirbuf.data g.clusterSize fatname).1 with
  | none => do
    kfree dirbuf
    pure 0
  | some dirOff => do
    freeOld g budget (entryCluster dirbuf.data dirOff)
    let dirbuf := putByte dirbuf dirOff 0xE5
    flushDirSector g dirbuf dirOff
    kfree dirbuf
    pure 1

end

end ChrisOS.Fs.Fat32
