import DeanOS.Lib.Access
import DeanOS.Minfs.Formatted

/-! The buffers of a mounted file system, and what is copied and transferred in and out of them:
what the superblock has to say about them beyond what `minfs_super_is_valid` checks. The functions of
`minfs.c` stand here with the sizes of their buffers and the places they touch, without the bytes. -/
namespace DeanOS.Minfs
open Fallible Traced

/-- The buffers of `minfs_t`, by their sizes. -/
structure Buffers where
  nodes : Nat
  bitmap : Nat
  bitmapDirty : Nat

namespace Super

section
variable (s : Super)

/-- `fs->node_table_sectors * MINFS_BLOCK_SIZE`, the size of the table buffers. -/
def tableBytes : Nat := mul32 s.nodeTableSectors 512

def bitmapBytes : Nat := mul32 s.bitmapSectors 512

/-- `fs->total_nodes * sizeof(minfs_disk_node_t)`. -/
def recordBytes : Nat := mul32 s.totalNodes 592

/-- `blockdev_read` and `blockdev_write` on a device with `blocks` sectors, with a buffer and the place
in it. A request that leaves the device is refused before anything is transferred. -/
def transfer (blocks lba count room offset : Nat) : Traced Unit := do
  require (count != 0 && decide (lba + count ≤ blocks))
  touch room offset (512 * count)
  ask

variable (blocks : Nat)

/-- `minfs_mount` up to the recovery. -/
def mountBuffers : Traced Buffers := do
  ask
  let nodes ← allocate s.recordBytes
  let bitmap ← allocate s.bitmapBytes
  let bitmapDirty ← allocate s.bitmapSectors
  ask
  ask
  let table ← allocate s.tableBytes
  transfer blocks s.nodeTableStart s.nodeTableSectors table 0
  touch table 0 s.recordBytes
  touch nodes 0 s.recordBytes
  transfer blocks s.bitmapStart s.bitmapSectors bitmap 0
  pure ⟨nodes, bitmap, bitmapDirty⟩

variable (b : Buffers)

/-- `minfs_flush_nodes`. -/
def flushNodesBuffers : Traced Unit := do
  let buf ← allocate s.tableBytes
  touch b.nodes 0 s.recordBytes
  touch buf 0 s.recordBytes
  transfer blocks s.nodeTableStart s.nodeTableSectors buf 0

/-- The loop of `minfs_flush_bitmap`; `dirty` says which sectors are marked. -/
def flushBitmapBuffers (dirty : Nat → Bool) : List Nat → Traced Unit
  | [] => pure ()
  | sector :: rest => do
    touch b.bitmapDirty sector 1
    onlyIf (dirty sector) (transfer blocks (s.bitmapStart + sector) 1 b.bitmap (mul32 sector 512))
    flushBitmapBuffers dirty rest

/-- `minfs_bitmap_is_set`, and with `marks` also `minfs_bitmap_set` and `minfs_bitmap_clear`. -/
def bitmapBuffers (index : Nat) (marks : Bool) : Traced Unit :=
  onlyIf (decide (index < s.dataBlockCount)) do
    touch b.bitmap (index / 8) 1
    onlyIf (marks && decide (index / 8 / 512 < s.bitmapSectors)) (touch b.bitmapDirty (index / 8 / 512) 1)

/-- The start of `minfs_rebuild_bitmap_from_nodes`. -/
def rebuildBuffers : Traced Unit := do
  touch b.bitmap 0 s.bitmapBytes
  touch b.bitmapDirty 0 s.bitmapSectors

end

/-- What is done with the buffers of a mounted file system. -/
inductive Work where
  | flushNodes
  | flushBitmap (dirty : Nat → Bool)
  | bitmap (index : Nat) (marks : Bool)
  | rebuild

def Work.program (s : Super) (blocks : Nat) (b : Buffers) : Work → Traced Unit
  | .flushNodes => s.flushNodesBuffers blocks b
  | .flushBitmap dirty => s.flushBitmapBuffers blocks b dirty (List.range s.bitmapSectors)
  | .bitmap index marks => s.bitmapBuffers b index marks
  | .rebuild => s.rebuildBuffers b

/-- A mount and what follows; a call that fails does not stop the next one. -/
def session (s : Super) (blocks : Nat) (works : List Work) : Traced Unit := do
  let b ← s.mountBuffers blocks
  edit fun t => works.foldl (fun t work => (work.program s blocks b t).1) t

/-- The areas on disk have room for what they hold, and memory is accessed in bounds, whatever fails. -/
structure Roomy (s : Super) (blocks : Nat) : Prop where
  records : s.totalNodes * 592 ≤ s.nodeTableSectors * 512
  bits : ∀ index < s.dataBlockCount, index < s.bitmapSectors * 512 * 8
  inside : ∀ works answers, Contained (s.session blocks works ⟨[], answers, 0⟩).1

/-- The mount gets buffers, which needs sizes other than zero in 32 bits, and reads the table. -/
def Starts (s : Super) (blocks : Nat) : Prop :=
  s.nodeTableSectors % 2 ^ 23 ≠ 0 ∧ s.bitmapSectors % 2 ^ 23 ≠ 0 ∧ 1 + s.nodeTableSectors ≤ blocks

/-- The areas have room, and a mount that starts to read them can count their bytes in 32 bits. -/
def Counted (s : Super) (blocks : Nat) : Prop :=
  (s.totalNodes * 592 ≤ 512 * s.nodeTableSectors ∧ s.dataBlockCount ≤ 4096 * s.bitmapSectors) ∧
    (s.Starts blocks → s.nodeTableSectors < 2 ^ 23 ∧
      (s.bitmapStart + s.bitmapSectors ≤ blocks → s.bitmapSectors < 2 ^ 23))

instance (s : Super) (blocks : Nat) : Decidable (s.Starts blocks) := inferInstanceAs (Decidable (_ ∧ _))

instance (s : Super) (blocks : Nat) : Decidable (s.Counted blocks) := inferInstanceAs (Decidable (_ ∧ _))

/-- What `minfs_super_is_valid` says of the sizes. -/
structure Checked (s : Super) : Prop where
  nodes : 0 < s.totalNodes ∧ s.totalNodes ≤ maxNodes
  start : s.nodeTableStart = 1
  table : s.nodeTableSectors ≠ 0
  bitmap : s.bitmapSectors ≠ 0
  data : 0 < s.dataBlockCount

/-- The buffers that a mount leaves are large enough, and so are those of the table. -/
structure Sized (s : Super) (b : Buffers) : Prop where
  nodes : s.recordBytes ≤ b.nodes
  records : s.recordBytes ≤ s.tableBytes
  table : 512 * s.nodeTableSectors ≤ s.tableBytes
  bitmap : 512 * s.bitmapSectors ≤ b.bitmap
  bytes : s.bitmapBytes ≤ b.bitmap
  dirty : s.bitmapSectors ≤ b.bitmapDirty
  bits : s.dataBlockCount ≤ 4096 * s.bitmapSectors

section
variable {s : Super} {blocks : Nat} {b : Buffers} {t : AccessLog}

theorem transfer_ends (contained : Contained t) (inside : lba + count ≤ blocks → offset + 512 * count ≤ room) :
    Ends (fun _ u => Contained u ∧ lba + count ≤ blocks) Contained (transfer blocks lba count room offset t) := by
  refine .guard (fun _ => contained) fun request => ?_
  have fits := of_decide_eq_true (Bool.and_eq_true_iff.mp request).2
  refine .bind (touch_ends contained (inside fits)) fun _ u contained => ?_
  exact (ask_ends contained).mono (fun _ _ contained => ⟨contained, fits⟩) fun _ => id

theorem flushBitmapBuffers_ends (sized : s.Sized b) (dirty : Nat → Bool) (sectors : List Nat)
    (below : ∀ sector ∈ sectors, sector < s.bitmapSectors) (contained : Contained t) :
    Ends (fun _ u => Contained u) Contained (s.flushBitmapBuffers blocks b dirty sectors t) := by
  induction sectors generalizing t with
  | nil => exact .returned contained
  | cons sector rest ih =>
    obtain ⟨here, below⟩ := List.forall_mem_cons.mp below
    have marked := sized.dirty
    have stored := sized.bitmap
    refine .bind (touch_ends contained (by omega)) fun _ _ contained => ?_
    have wrapped : mul32 sector 512 ≤ 512 * sector := (Nat.mod_le _ _).trans (by omega)
    refine .bind (.onlyIf (fun _ => ?_) fun _ => contained) fun _ _ contained => ih below contained
    exact (transfer_ends contained fun _ => by omega).mono (fun _ _ kept => kept.1) fun _ => id

theorem Work.contained (sized : s.Sized b) (work : Work) (contained : Contained t) :
    Contained (work.program s blocks b t).1 := by
  apply Ends.state
  cases work with
  | flushNodes =>
    refine .bind (allocate_ends contained _) ?_
    rintro _ _ ⟨contained, rfl, -⟩
    have records := sized.records
    have nodes := sized.nodes
    refine .bind (touch_ends contained (by omega)) fun _ _ contained => ?_
    refine .bind (touch_ends contained (by omega)) fun _ _ contained => ?_
    have table := sized.table
    exact (transfer_ends contained fun _ => by omega).mono (fun _ _ kept => kept.1) fun _ => id
  | flushBitmap dirty =>
    exact flushBitmapBuffers_ends sized dirty _ (fun _ => List.mem_range.mp) contained
  | bitmap index marks =>
    refine .onlyIf (fun below => ?_) fun _ => contained
    have below := of_decide_eq_true below
    have bits := sized.bits
    have bitmap := sized.bitmap
    refine .bind (touch_ends contained (by omega)) fun _ _ contained => ?_
    refine .onlyIf (fun marked => touch_ends contained ?_) fun _ => contained
    have marked := of_decide_eq_true (Bool.and_eq_true_iff.mp marked).2
    have dirty := sized.dirty
    omega
  | rebuild =>
    have bytes := sized.bytes
    have dirty := sized.dirty
    exact .bind (touch_ends contained (by omega)) fun _ _ contained => touch_ends contained (by omega)

end

end Super

end DeanOS.Minfs
