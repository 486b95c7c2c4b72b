import DeanOS.Lib.Words
import DeanOS.Ramfs.Fs
import Mathlib.Data.List.GetD

/-! The growing buffer of a ramfs file against an array of bytes: `ramfs_write` puts its bytes
there, and `ramfs_read` gives them back. -/
namespace DeanOS.Ramfs
open Fallible List Fs Nat

/-- An array of bytes, zero where nothing has been written, with the size of the file. -/
structure Contents where
  size : Nat
  byte : Nat → UInt8

namespace Contents

def empty : Contents := ⟨0, fun _ => 0⟩

def put (c : Contents) (offset : Nat) (bytes : List UInt8) : Contents :=
  let stop := min (offset + bytes.length) maxFile
  ⟨max stop c.size, overlay c.byte offset (stop - offset) (bytes.getD · 0)⟩

def get (c : Contents) (offset size : Nat) : List UInt8 := (range (min size (c.size - offset))).map fun k => c.byte (offset + k)

end Contents

/-- The file has these contents, and behind them its buffer holds zeros. -/
structure Node.Stores (n : Node) (data : List UInt8) (c : Contents) : Prop where
  kind : n.isFile = true
  file : n.file = some data
  size : n.size = c.size
  within : c.size ≤ data.length
  limit : data.length ≤ maxFile
  bytes : ∀ k, data.getD k 0 = c.byte k

theorem newCapacity_enough (below : needed ≤ maxFile) (rounds capacity : Nat) (reaches : maxFile ≤ 2 ^ rounds * capacity)
    (small : capacity ≤ maxFile) :
    needed ≤ newCapacity needed rounds capacity ∧ capacity ≤ newCapacity needed rounds capacity ∧
      newCapacity needed rounds capacity ≤ maxFile := by
  induction rounds generalizing capacity with
  | zero => grind [newCapacity]
  | succ rounds ih =>
    have later : maxFile ≤ 2 ^ rounds * min (2 * capacity) maxFile := by
      rw [← Nat.mul_min_mul_left, ← Nat.mul_assoc, ← Nat.pow_succ]
      exact Nat.le_min.mpr ⟨reaches, Nat.le_mul_of_pos_left _ (Nat.two_pow_pos rounds)⟩
    grind [newCapacity]

theorem krealloc_ends (fs : Fs) (data : List UInt8) (size : Nat) :
    Ends (fun grown t => t.nodes = fs.nodes ∧ grown.take data.length = data) (fun t => t.nodes = fs.nodes)
      (krealloc data size fs) := by
  have allocated : Ends (fun _ t => t.nodes = fs.nodes) (fun t => t.nodes = fs.nodes) (alloc fs) := .of_state rfl
  exact .peek (.bind allocated fun _ t same => .returned ⟨same, take_left⟩)

/-- `ramfs_ensure_capacity`: room for the bytes, and zeros behind the old ones. -/
theorem ensureCapacity_ends (fs : Fs) (limit : data.length ≤ maxFile) (needed : Nat) :
    Ends (fun data' t => t.nodes = fs.nodes ∧ needed ≤ data'.length ∧ data.length ≤ data'.length ∧ data'.length ≤ maxFile ∧
        ∀ k, data'.getD k 0 = data.getD k 0) (fun t => t.nodes = fs.nodes) (ensureCapacity data needed fs) := by
  unfold ensureCapacity
  split
  case isTrue fits => exact .returned ⟨rfl, fits, le_rfl, limit, fun _ => rfl⟩
  case isFalse =>
    refine .guard (fun _ => rfl) fun below => ?_
    refine .bind (krealloc_ends fs data _) ?_
    rintro grown t ⟨same, kept⟩
    refine .returned ⟨same, ?_⟩
    rw [kept]
    generalize first : (if data = [] then 256 else data.length) = start
    have bounds : 0 < start ∧ start ≤ maxFile ∧ data.length ≤ start := by grind [maxFile]
    have grown := newCapacity_enough (of_decide_eq_true below) 16 start (Nat.le_mul_of_pos_right _ bounds.1) bounds.2.1
    grind

theorem store_byte (fits : offset + bytes.length ≤ data.length) (k : Nat) :
    (store data offset bytes).getD k 0 = overlay (data.getD · 0) offset bytes.length (bytes.getD · 0) k := by
  have whole : bytes.take (data.length - offset) = bytes := take_of_length_le (by omega)
  simp only [store, overlay, whole, getD_eq_getElem?_getD, getElem?_append, getElem?_take, getElem?_drop, length_take]
  grind

section
variable {fs : Fs} {n : Node}

section
variable (there : fs.nodes at_ = some n)
include there

theorem nodeAt_run : nodeAt at_ fs = (fs, some n) := by
  simp only [nodeAt, peek_bind, there]
  rfl

theorem write_ends (stores : n.Stores data c) (small : offset + bytes.length < 2 ^ 32) :
    Ends (fun count t => ∃ m data', t.nodes at_ = some m ∧ m.Stores data' (c.put offset bytes) ∧ offset + count ≤ data'.length)
      (fun t => t.nodes = fs.nodes) (write at_ offset bytes fs) := by
  apply Ends.step (nodeAt_run there)
  refine .guard (fun _ => rfl) fun _ => ?_
  rw [stores.file, mod_eq_of_lt small]
  refine .guard (fun _ => rfl) fun below => ?_
  refine .bind (ensureCapacity_ends fs stores.limit _) ?_
  rintro data' t ⟨same, enough, longer, limit, bytes'⟩
  generalize taken : bytes.take (if maxFile < offset + bytes.length then maxFile - offset else bytes.length) = part
  have length : offset + part.length = min (offset + bytes.length) maxFile := by grind
  have length' : (store data' offset part).length = data'.length := by
    rw [store, length_append, length_append, length_take, length_take, length_drop]
    omega
  refine .returned ⟨_, _, Function.update_self .., ⟨stores.kind, rfl, congrArg (max _) stores.size, ?_, length' ▸ limit, fun k => ?_⟩, ?_⟩
  · rw [length']
    exact Nat.max_le.mpr ⟨enough, stores.within.trans longer⟩
  · rw [store_byte (length ▸ enough)]
    simp only [Contents.put, overlay, ← length, Nat.add_sub_cancel_left, bytes', stores.bytes]
    grind
  · grind

theorem read_run (stores : n.Stores data c) (offset size : Nat) :
    read at_ offset size fs = (fs, some (c.get offset size)) := by
  have bytes : (data.drop offset).take (min size (c.size - offset)) = c.get offset size := by
    have within := stores.within
    apply ext_getElem
    · grind [Contents.get]
    intro k inside _
    rw [length_take, length_drop] at inside
    simp only [Contents.get, getElem_take, getElem_drop, getElem_map, getElem_range, ← stores.bytes]
    rw [getD_eq_getElem _ _ (by omega)]
  simp only [Fs.read, Bind.bind, nodeAt_run there, stores.kind, stores.file, stores.size]
  change (if c.size ≤ offset then pure [] else pure _ : Fallible Fs (List UInt8)) fs = _
  split
  case isTrue beyond =>
    rw [Contents.get, Nat.sub_eq_zero_of_le beyond, Nat.min_zero]
    rfl
  case isFalse => exact congrArg (fun bytes => (fs, some bytes)) bytes

end

/-- The file after some writes, and the array after those of them that succeeded. -/
def writeAll (at_ : Nat) : List (Nat × List UInt8) → Fs → Contents → Fs × Contents
  | [], fs, c => (fs, c)
  | (offset, bytes) :: rest, fs, c =>
    match write at_ offset bytes fs with
    | (fs, some _) => writeAll at_ rest fs (c.put offset bytes)
    | (fs, none) => writeAll at_ rest fs c

theorem writeAll_stores (writes : List (Nat × List UInt8)) (small : ∀ w ∈ writes, w.1 + w.2.length < 2 ^ 32)
    (there : fs.nodes at_ = some n) (stores : n.Stores data c) :
    ∃ m data', (writeAll at_ writes fs c).1.nodes at_ = some m ∧ m.Stores data' (writeAll at_ writes fs c).2 := by
  induction writes generalizing fs n data c with
  | nil => exact ⟨n, data, there, stores⟩
  | cons w rest ih =>
    have later (v : Nat × List UInt8) (member : v ∈ rest) := small v (mem_cons_of_mem _ member)
    have ends := write_ends there stores (small w mem_cons_self)
    rw [writeAll]
    generalize write at_ w.1 w.2 fs = run at ends
    cases ends with
    | returned holds =>
      obtain ⟨m, data', there, stores, _⟩ := holds
      exact ih later there stores
    | gaveUp same => exact ih later (same ▸ there) stores

/-- Whatever was written to an empty file, and whichever writes failed, a read returns what the
successful ones put into the array. -/
theorem reads_what_was_written (there : fs.nodes at_ = some n) (fresh : n.Stores [] .empty) (writes : List (Nat × List UInt8))
    (small : ∀ w ∈ writes, w.1 + w.2.length < 2 ^ 32) (offset size : Nat) :
    (read at_ offset size (writeAll at_ writes fs .empty).1).2 = some ((writeAll at_ writes fs .empty).2.get offset size) := by
  obtain ⟨m, data, there, stores⟩ := writeAll_stores writes small there fresh
  rw [read_run there stores]

end

def oneFile : Fs where
  nodes at_ := if at_ = 0 then some ⟨[], Vfs.typeFile, 0, some [], []⟩ else none
  next := 1
  heap calls := calls == 0
  heapCalls := 0

theorem oneFile_stores : (⟨[], Vfs.typeFile, 0, some [], []⟩ : Node).Stores [] .empty :=
  ⟨rfl, rfl, rfl, le_rfl, zero_le _, fun _ => rfl⟩

/-- The second write needs a larger buffer and fails. -/
theorem reads_past_failed_write :
    (read 0 0 9 (writeAll 0 [(2, [7, 8]), (300, [9])] oneFile .empty).1).2 = some [0, 0, 7, 8] := by
  have reads := reads_what_was_written (show oneFile.nodes 0 = some _ from rfl) oneFile_stores [(2, [7, 8]), (300, [9])] (by decide) 0 9
  exact reads.trans (by decide +kernel)

end DeanOS.Ramfs
