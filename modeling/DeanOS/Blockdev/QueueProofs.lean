import DeanOS.Blockdev.ArrayProofs
import DeanOS.Blockdev.Queue

/-! Synchronous requests on an idle queue. A request is executed by its own wait
loop, and a partition request by one nested wait on the parent disk. -/
namespace DeanOS.Blockdev
open List

/-- No request is queued, and every finished waiter is older than the next tag. -/
structure Idle (s : Storage) : Prop where
  pending : s.pending = []
  completed : s.completed = []
  delivered : ∀ tag resp, (tag, resp) ∈ s.delivered → tag < s.nextTag

structure Quiet (s t : Storage) : Prop where
  idle : Idle t
  devs : t.devs = s.devs
  parts : t.parts = s.parts
  tags : s.nextTag ≤ t.nextTag

theorem Quiet.ofSame (idle : Idle s) (same : SameQueues s t) : Quiet s t where
  idle := ⟨same.pending.trans idle.pending, same.completed.trans idle.completed, by
    rw [same.delivered, same.nextTag]; exact idle.delivered⟩
  devs := same.devs
  parts := same.parts
  tags := same.nextTag.symm.le

def Storage.enter (s : Storage) : Storage := { s with nextTag := s.nextTag + 1 }

theorem enter_quiet (idle : Idle s) : Quiet s s.enter where
  idle := ⟨idle.pending, idle.completed, fun tag resp found =>
    Nat.lt_succ_of_lt (idle.delivered tag resp found)⟩
  devs := rfl
  parts := rfl
  tags := Nat.le_succ _

theorem lookup_fresh (idle : Idle s) : s.delivered.lookup s.nextTag = none := by
  rw [lookup_eq_none_iff]
  rintro ⟨tag, resp⟩ found
  have older := idle.delivered tag resp found
  exact bne_iff_ne.mpr older.ne'

theorem complete_quiet (quiet : Quiet s.enter t) (req : Request) (resp : Response) :
    Quiet s (t.complete { req with tag := s.nextTag } resp) where
  idle := by
    refine ⟨quiet.idle.pending, quiet.idle.completed, ?_⟩
    intro tag status found
    rcases mem_cons.mp found with same | earlier
    · cases same
      exact quiet.tags
    · exact quiet.idle.delivered tag status earlier
  devs := quiet.devs
  parts := quiet.parts
  tags := (Nat.le_succ _).trans quiet.tags

theorem submit_rejected (depth : Nat) (rejected : blockdevValidateRequest s req < 0) :
    blockdevSubmitAndWait (depth + 1) s req = (s.enter, .error (blockdevValidateRequest s req)) := by
  have invalid : blockdevValidateRequest s.enter { req with tag := s.nextTag } < 0 := rejected
  simp only [blockdevSubmitAndWait, blockdevSubmitAsync]
  rw [show ({ s with nextTag := s.nextTag + 1 } : Storage) = s.enter from rfl, if_pos invalid]
  exact if_pos invalid

theorem dispatch_empty (budget : Nat) (empty : s.completed = []) : blockdevDispatchCompletions budget s = s := by
  cases budget with
  | zero => rfl
  | succ budget => simp only [blockdevDispatchCompletions, empty]

section
variable (nested : Nested) (idle : Idle s) (req : Request)
include nested idle req

theorem pumpOne_quiet
    (executed : blockdevExecuteRequest nested s req = (t, resp)) (quiet : Quiet s t) :
    pumpOne nested { s with pending := [req] } req [] = t.complete req resp := by
  have popped : ({ s with pending := [] } : Storage) = s := by rw [← idle.pending]
  have emptied : ({ t with completed := [] } : Storage) = t := by rw [← quiet.idle.completed]
  have room : ¬ asyncQueueDepth ≤ ([] : List (Request × Response)).length := by decide
  simp only [pumpOne, popped, executed, quiet.idle.completed, if_neg room, nil_append,
    blockdevDispatchCompletions, emptied]

theorem pump_single
    (executed : blockdevExecuteRequest nested s req = (t, resp)) (quiet : Quiet s t) :
    blockdevPump nested 1 { s with pending := [req] } = t.complete req resp := by
  have undispatched : blockdevDispatchCompletions 1 { s with pending := [req] } = { s with pending := [req] } :=
    dispatch_empty 1 idle.completed
  simp only [blockdevPump, Nat.max_self, undispatched]
  exact pumpOne_quiet nested idle req executed quiet

theorem wait_single (unseen : s.delivered.lookup req.tag = none)
    (executed : blockdevExecuteRequest nested s req = (t, resp)) (quiet : Quiet s t) :
    waitFor nested req.tag 2 { s with pending := [req] } = (t.complete req resp, resp) := by
  have found : (t.complete req resp).delivered.lookup req.tag = some resp := by
    simp only [Storage.complete, lookup_cons, beq_self_eq_true]
  simp only [waitFor, unseen, pump_single nested idle req executed quiet, found]

end

theorem submit_accepted (depth : Nat) (idle : Idle s) (accepted : 0 ≤ blockdevValidateRequest s req)
    (executed : blockdevExecuteRequest (blockdevSubmitAndWait depth) s.enter { req with tag := s.nextTag } =
      (t, resp)) (quiet : Quiet s.enter t) :
    blockdevSubmitAndWait (depth + 1) s req = (t.complete { req with tag := s.nextTag } resp, resp) := by
  have valid : ¬ blockdevValidateRequest s.enter { req with tag := s.nextTag } < 0 := accepted.not_gt
  have entered := (enter_quiet idle).idle
  have queued : blockdevSubmitAsync s.enter { req with tag := s.nextTag } =
      ({ s.enter with pending := [{ req with tag := s.nextTag }] }, 0) := by
    have room : ¬ asyncQueueDepth ≤ ([] : List Request).length := by decide
    simp only [blockdevSubmitAsync, if_neg valid, entered.pending, if_neg room, nil_append]
  simp only [blockdevSubmitAndWait]
  rw [show ({ s with nextTag := s.nextTag + 1 } : Storage) = s.enter from rfl, queued]
  -- The wait gets two looks: one before and one after the pump that executes the request.
  have looks : [{ req with tag := s.nextTag }].length + s.enter.completed.length + 1 = 2 := by
    rw [entered.completed]; rfl
  simp only [lt_self_iff_false, if_false, looks]
  exact wait_single _ entered { req with tag := s.nextTag } (lookup_fresh idle) executed quiet

end DeanOS.Blockdev
