import DeanOS.Blockdev.Device
import DeanOS.Lib.Words
import DeanOS.Vfs.Permission

/-! The disk format that `fat32.c` reads: the boot sector, the entries of the file
allocation table, and directory entries with their 8.3 names. -/
namespace DeanOS.Fat32
open Blockdev (Block)
open Vfs (Text Access typeFile typeDirectory)

def entryFree : Nat := 0
def entryBadCluster : Nat := 0x0FFFFFF7
def entryEofEnd : Nat := 0x0FFFFFFF
def clusterChainMax : Nat := 100000

def attrDirectory : UInt8 := 0x10
def attrArchive : UInt8 := 0x20
def attrLfn : UInt8 := 0x0F

abbrev Buffer := Nat → UInt8

/-! ### Directory entries -/

def direntSize : Nat := 32

/-- The fields of `fat32_dir_entry_t` that are used. -/
structure DirEntry where
  name : List UInt8
  ext : List UInt8
  attr : UInt8
  cluster : Nat
  fileSize : Nat
deriving DecidableEq

def bytesAt (b : Buffer) (offset count : Nat) : List UInt8 := (List.range count).map fun k => b (offset + k)

def DirEntry.ofBuffer (b : Buffer) (offset : Nat) : DirEntry where
  name := bytesAt b offset 8
  ext := bytesAt b (offset + 8) 3
  attr := b (offset + 11)
  cluster := leHalf b (offset + 20) * 65536 + leHalf b (offset + 26)
  fileSize := leWord b (offset + 28)

namespace DirEntry

section
variable (e : DirEntry)

/-- `ent->name[0] == 0x00` ends a directory. -/
def isEnd : Bool := e.name.head? == some 0

def isDeleted : Bool := e.name.head? == some 0xE5

def isLfn : Bool := e.attr &&& attrLfn == attrLfn

def isDirectory : Bool := e.attr &&& attrDirectory != 0

end

end DirEntry

/-- What `fat32_sync_node_metadata` stores in an entry. -/
def storeMetadata (b : Buffer) (offset cluster size : Nat) : Buffer := fun k =>
  if k = offset + 11 then b k ||| attrArchive
  else if offset + 20 ≤ k ∧ k < offset + 22 then leByte (cluster / 65536) (k - (offset + 20))
  else if offset + 26 ≤ k ∧ k < offset + 28 then leByte cluster (k - (offset + 26))
  else if offset + 28 ≤ k ∧ k < offset + 32 then leByte size (k - (offset + 28))
  else b k

/-- The entry that `fat32_create` makes. -/
def newEntry (name ext : List UInt8) : Buffer := fun k => ((name ++ ext ++ [attrArchive])[k]?).getD 0

/-- The entry that `fat32_unlink` leaves. -/
def buryEntry (b : Buffer) (offset : Nat) : Buffer := fun k =>
  if k = offset then 0xE5
  else if offset + 20 ≤ k ∧ k < offset + 22 ∨ offset + 26 ≤ k ∧ k < offset + 32 then 0
  else b k

/-! ### Names -/

def toLower (c : UInt8) : UInt8 := if 0x41 ≤ c ∧ c ≤ 0x5A then c + 32 else c

def toUpper (c : UInt8) : UInt8 := if 0x61 ≤ c ∧ c ≤ 0x7A then c - 32 else c

def space : UInt8 := 0x20
def dot : UInt8 := 0x2E
def backslash : UInt8 := 0x5C

/-- `fat32_format_filename`, as the C string that it leaves. Twelve characters always fit. -/
def formatFilename (name ext : List UInt8) : Text :=
  let base := (name.takeWhile (· != space)).map fun c => if c = 0x05 then 0xE5 else toLower c
  let extension := if ext.any (· != space) then dot :: (ext.takeWhile (· != space)).map toLower else []
  (base ++ extension).takeWhile (· != 0)

/-- `fat32_stricmp(a, b) == 0`. -/
def sameName (a b : Text) : Bool := a.map toLower == b.map toLower

def DirEntry.filename (e : DirEntry) : Text := formatFilename e.name e.ext

/-- Characters that `fat32_create` refuses. -/
def badCharacter (c : UInt8) : Bool := c == space || c == Vfs.slash || c == backslash

def padded (length : Nat) (text : List UInt8) : List UInt8 := text.map toUpper ++ List.replicate (length - text.length) space

/-- The 8.3 name that `fat32_create` makes: the extension is behind the last dot. -/
def shortName (name : Text) : Option (List UInt8 × List UInt8) :=
  let (base, ext) := match (name.reverse.span (· != dot)) with
    | (_, []) => (name, [])
    | (tail, _ :: front) => (front.reverse, tail.reverse)
  if base.length = 0 ∨ 8 < base.length ∨ 3 < ext.length then none
  else if base.any badCharacter || ext.any badCharacter then none
  else some (padded 8 base, padded 3 ext)

end DeanOS.Fat32
