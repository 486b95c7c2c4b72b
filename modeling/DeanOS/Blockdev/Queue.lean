import DeanOS.Blockdev.Cache

/-! The request queue of `blockdev.c` and its synchronous entry points. A
partition request submits a request on its parent while it is being executed,
so the wait loop is entered again from inside the pump. -/
namespace DeanOS.Blockdev

def blockdevValidateRequest (s : Storage) (req : Request) : Int :=
  match s.dev req.devIndex with
  | none => -2
  | some d =>
    if req.op = .flush then 0
    else if req.count == 0 || req.buffer.isNone then -3
    else if d.blockCount ≤ req.lba then -4
    else if d.blockCount - req.lba < req.count then -5
    else match req.op with
    | .read => if !d.hasRead then -6 else 0
    | .write => if !d.hasWrite then -6 else if d.readonly then -7 else 0
    | _ => -8

def blockdevExecuteRequest (nested : Nested) (s : Storage) (req : Request) : Storage × Response :=
  match req.op with
  | .read => blockdevReadSyncImpl nested s req.devIndex req.lba req.count req.buffer.isSome
  | .write => blockdevWriteSyncImpl nested s req.devIndex req.lba req.count req.buffer
  | .flush => blockdevFlushSyncImpl nested s req.devIndex
  | .other => (s, .error (-1))

def blockdevSubmitAsync (s : Storage) (req : Request) : Storage × Int :=
  let rc := blockdevValidateRequest s req
  if rc < 0 then (s, rc)
  else if asyncQueueDepth ≤ s.pending.length then (s, -9)
  else ({ s with pending := s.pending ++ [req] }, 0)

/-- Invoking a completion callback hands the status to the waiter named by the tag. -/
def Storage.complete (s : Storage) (req : Request) (resp : Response) : Storage :=
  { s with delivered := (req.tag, resp) :: s.delivered }

def blockdevDispatchCompletions : Nat → Storage → Storage
  | 0, s => s
  | budget + 1, s =>
    match s.completed with
    | [] => s
    | (req, resp) :: rest =>
      blockdevDispatchCompletions budget ({ s with completed := rest }.complete req resp)

/-- One round of the loop in `blockdev_pump`: pop, execute, complete, dispatch. -/
def pumpOne (nested : Nested) (s : Storage) (req : Request) (rest : List Request) : Storage :=
  let (s, resp) := blockdevExecuteRequest nested { s with pending := rest } req
  let s := if asyncQueueDepth ≤ s.completed.length then s.complete req resp
    else { s with completed := s.completed ++ [(req, resp)] }
  blockdevDispatchCompletions 1 s

def pumpRounds (nested : Nested) : Nat → Storage → Storage
  | 0, s => s
  | budget + 1, s =>
    match s.pending with
    | [] => s
    | req :: rest => pumpRounds nested budget (pumpOne nested s req rest)

def blockdevPump (nested : Nested) (budget : Nat) (s : Storage) : Storage :=
  let budget := max budget 1
  pumpRounds nested budget (blockdevDispatchCompletions budget s)

/-- `while (!waiter[1]) blockdev_pump(1)`. -/
def waitFor (nested : Nested) (tag : Nat) : Nat → Storage → Storage × Response
  | 0, s => (s, .stuck)
  | fuel + 1, s =>
    match s.delivered.lookup tag with
    | some resp => (s, resp)
    | none => waitFor nested tag fuel (blockdevPump nested 1 s)

/-- The first argument bounds how deep partition requests nest. Each wait gets
one pump for every queued request and one look more. -/
def blockdevSubmitAndWait : Nat → Storage → Request → Storage × Response
  | 0, s, _ => (s, .stuck)
  | depth + 1, s, req =>
    let tag := s.nextTag
    match blockdevSubmitAsync { s with nextTag := tag + 1 } { req with tag } with
    | (s, rc) =>
      if rc < 0 then (s, .error rc)
      else waitFor (blockdevSubmitAndWait depth) tag (s.pending.length + s.completed.length + 1) s

/-- Partitions are scanned on disks only, so requests nest at most twice. -/
def nestingDepth : Nat := 2

def blockdevRead (s : Storage) (index lba count : Nat) : Storage × Response :=
  blockdevSubmitAndWait nestingDepth s { op := .read, devIndex := index, lba, count, buffer := some [] }

def blockdevWrite (s : Storage) (index lba : Nat) (blocks : List Block) : Storage × Response :=
  blockdevSubmitAndWait nestingDepth s
    { op := .write, devIndex := index, lba, count := blocks.length, buffer := some blocks }

def blockdevFlush (s : Storage) (index : Nat) : Storage × Response :=
  blockdevSubmitAndWait nestingDepth s { op := .flush, devIndex := index }

/-- `blockdev_drain_async`, with enough rounds for the queued requests. -/
def blockdevDrainAsync (nested : Nested) : Nat → Storage → Storage
  | 0, s => s
  | fuel + 1, s =>
    if s.pending.isEmpty && s.completed.isEmpty then s
    else blockdevDrainAsync nested fuel (blockdevPump nested 8 s)

def blockdevFlushAll (s : Storage) : Storage × Response :=
  let nested := blockdevSubmitAndWait nestingDepth
  let s := blockdevDrainAsync nested (s.pending.length + s.completed.length + 1) s
  flushEntries nested (fun _ => true) (List.finRange cacheEntries) s

end DeanOS.Blockdev
