import DeanOS.Blockdev.AsyncOrder

/-! Runs of asynchronous submissions and pumps. Requests take effect in the order
they were submitted as long as no request on a partition is taken from the queue
while a conflicting request on its disk waits behind it. -/
namespace DeanOS.Blockdev
open Reorder WriteBack List Nat

/-- The waits that can be open at once: one for each queued request on a partition. -/
def asyncNesting : Nat := asyncQueueDepth + 1

inductive QueueAction where
  | submit (req : Request)
  | pump (budget : Nat)

open QueueAction

/-- An action, with the request it added to the queue. A submitted request gets a
tag of its own, as every caller has its own callback data. -/
def QueueAction.run : QueueAction → Storage → Storage × List Request
  | .submit req, s =>
    let req := { req with tag := s.nextTag }
    match blockdevSubmitAsync { s with nextTag := s.nextTag + 1 } req with
    | (s, rc) => (s, if rc < 0 then [] else [req])
  | .pump budget, s => (blockdevPump (blockdevSubmitAndWait asyncNesting) budget s, [])

/-- The accepted requests in the order of their submission, and the final state. -/
def replay : Storage → List QueueAction → List Request × Storage
  | s, [] => ([], s)
  | s, action :: rest =>
    let (s, new) := action.run s
    let (more, s) := replay s rest
    (new ++ more, s)

/-- No request on a partition has a conflicting disk request behind it. -/
def Calm (devs : List BlockDevice) (queue : List Request) : Prop :=
  queue.Pairwise fun x y => x.nests devs = true → y.nests devs = false → ¬ Conflict devs x y

/-- Every request on a partition that a pump may take from the queue is calm there. -/
def PumpsCalmly (devs : List BlockDevice) (budget : Nat) (queue : List Request) : Prop :=
  ∀ i < budget, ∀ head rest, queue.drop i = head :: rest → head.nests devs = true → Calm devs (head :: rest)

def Orderly : Storage → List QueueAction → Prop
  | _, [] => True
  | s, .submit req :: rest => Orderly ((submit req).run s).1 rest
  | s, .pump budget :: rest =>
      PumpsCalmly s.devs (max budget 1) s.pending ∧ Orderly ((pump budget).run s).1 rest

structure Steady (s : Storage) : Prop where
  tagged : Tagged s
  sound : Sound s
  served : AllServed s
  bounded : s.pending.length ≤ asyncQueueDepth

theorem Handled.steady (steady : Steady s) (handled : Handled s t done) : Steady t where
  tagged := handled.tagged
  sound := handled.sound
  served := by rw [AllServed, handled.devs]; exact steady.served
  bounded := by
    have length := congrArg length handled.pending
    have bounded := steady.bounded
    rw [length_append] at length
    omega

theorem Serial.restore (calm : Calm devs (done.map Prod.fst)) (serial : Serial devs (drainOrder devs done) a b) :
    Serial devs done a b := by
  refine Runs.restore (fun x => x.1.nests devs) ?_ serial
  refine (pairwise_map.mp calm).imp fun free nests direct => ?_
  exact swaps_of_calm fun conflict => free nests direct conflict.symm

/-- Every round of a pump answers the first waiting requests; in a calm queue they
take effect in their order. -/
theorem pumpRounds_handled (budget : Nat) (steady : Steady s) :
    ∃ done, Handled s (pumpRounds (blockdevSubmitAndWait asyncNesting) budget s) done ∧ (PumpsCalmly s.devs budget s.pending →
        Serial s.devs done s.array (pumpRounds (blockdevSubmitAndWait asyncNesting) budget s).array) := by
  induction budget generalizing s with
  | zero => exact ⟨[], .refl steady.sound steady.tagged, fun _ => rfl⟩
  | succ budget ih =>
    cases pending : s.pending with
    | nil =>
      simp only [pumpRounds, pending]
      exact ⟨[], .refl steady.sound steady.tagged, fun _ => rfl⟩
    | cons req rest =>
      simp only [pumpRounds, pending]
      -- After the head has been dealt with alone, the other rounds follow.
      have carry : ∀ resp t, Handled s t [(req, resp)] → Answered s.devs (req, resp) s.array t.array →
          ∃ done, Handled s (pumpRounds (blockdevSubmitAndWait asyncNesting) budget t) done ∧
            (PumpsCalmly s.devs (budget + 1) (req :: rest) →
              Serial s.devs done s.array (pumpRounds (blockdevSubmitAndWait asyncNesting) budget t).array) := by
        intro resp t handled answered
        obtain ⟨done, more, serial⟩ := ih (handled.steady steady)
        refine ⟨[(req, resp)] ++ done, handled.trans steady.tagged more, fun calm => ⟨_, answered, ?_⟩⟩
        rw [handled.devs, handled.left pending] at serial
        exact serial fun i bound => calm (i + 1) (succ_lt_succ bound)
      cases nests : req.nests s.devs with
      | false =>
        obtain ⟨resp, handled, answered⟩ :=
          pumpOne_direct (blockdevSubmitAndWait asyncNesting) steady.tagged steady.sound steady.served pending nests
        exact carry resp _ handled answered
      | true =>
        have few : rest.countP (fun req => req.nests s.devs) ≤ asyncQueueDepth := by
          have bounded := steady.bounded
          rw [pending, length_cons] at bounded
          exact le_trans countP_le_length (by omega)
        rcases pumpOne_nests (waitsOut asyncQueueDepth) steady.tagged steady.sound steady.served pending nests few
            (rfl : pumpOne (blockdevSubmitAndWait asyncNesting) s req rest = _) with
          ⟨code, handled, array⟩ | ⟨resp, done, names, handled, empty, serial⟩
        · exact carry _ _ handled (array ▸ .failed _ _ req code)
        have ended : ∀ t : Storage, t.pending = [] → pumpRounds (blockdevSubmitAndWait asyncNesting) budget t = t := by
          intro t none
          cases budget with
          | zero => rfl
          | succ budget => simp only [pumpRounds, none]
        rw [ended _ empty]
        refine ⟨_, handled, fun calm => serial.restore ?_⟩
        rw [map_cons, names]
        exact calm 0 (succ_pos _) req rest rfl nests

theorem pump_handled (budget : Nat) (steady : Steady s)
    (pumped : blockdevPump (blockdevSubmitAndWait asyncNesting) budget s = t) :
    ∃ done, Handled s t done ∧ (PumpsCalmly s.devs (max budget 1) s.pending → Serial s.devs done s.array t.array) := by
  subst pumped
  simp only [blockdevPump, dispatch_empty _ steady.tagged.completed]
  exact pumpRounds_handled _ steady

/-- A submission leaves the queue alone or puts its request at the end. -/
structure Submitted (s t : Storage) (new : List Request) : Prop where
  devs : t.devs = s.devs
  array : t.array = s.array
  delivered : t.delivered = s.delivered
  tags : s.nextTag ≤ t.nextTag
  pending : t.pending = s.pending ++ new
  own : ∀ req ∈ new, req.tag = s.nextTag
  steady : Steady t

theorem submit_submitted (steady : Steady s) (req : Request) (ran : (submit req).run s = (t, new)) :
    Submitted s t new := by
  obtain ⟨tagged, sound, served, bounded⟩ := steady
  simp only [run] at ran
  rw [show ({ s with nextTag := s.nextTag + 1 } : Storage) = s.enter from rfl] at ran
  rcases submitAsync_cases s.enter { req with tag := s.nextTag } with ⟨rc, negative, refused⟩ | ⟨room, queued⟩
  · simp only [refused, negative, if_true] at ran
    cases ran
    have entered := Handled.enter tagged sound
    exact ⟨rfl, (sound.ofSame rfl rfl rfl).2, rfl, le_succ _, (append_nil _).symm,
      fun next member => (by cases member), entered.tagged, entered.sound, served, bounded⟩
  simp only [queued, lt_self_iff_false, if_false] at ran
  cases ran
  obtain ⟨soundT, array⟩ := sound.ofSame
    (t := { s.enter with pending := s.enter.pending ++ [{ req with tag := s.nextTag }] }) rfl rfl rfl
  refine ⟨rfl, array, rfl, le_succ _, rfl, ?_, tagged.push req, soundT, served, ?_⟩
  · intro next member
    cases mem_singleton.mp member
    rfl
  · simp only [length_append, length_cons, length_nil]
    omega

/-- What a run leaves: the requests answered so far are the first of those that
were accepted, and they had the effect of their order of submission. -/
structure Replayed (s t : Storage) (accepted : List Request) (done : List (Request × Response)) : Prop where
  pending : s.pending ++ accepted = done.map Prod.fst ++ t.pending
  serial : Serial s.devs done s.array t.array
  answers : ∀ x ∈ done, t.delivered.lookup x.1.tag = some x.2
  others : ∀ tag < s.nextTag, tag ∉ s.pending.map Request.tag → t.delivered.lookup tag = s.delivered.lookup tag

theorem Replayed.afterSubmit (submitted : Submitted s t new) (replayed : Replayed t u accepted done) :
    Replayed s u (new ++ accepted) done where
  pending := by rw [← append_assoc, ← submitted.pending]; exact replayed.pending
  serial := by rw [← submitted.devs, ← submitted.array]; exact replayed.serial
  answers := replayed.answers
  others := by
    intro tag older absent
    rw [← submitted.delivered]
    refine replayed.others tag (older.trans_le submitted.tags) ?_
    rw [submitted.pending, map_append, mem_append, not_or]
    refine ⟨absent, fun member => ?_⟩
    obtain ⟨req, listed, rfl⟩ := mem_map.mp member
    exact (submitted.own req listed ▸ older).false

theorem Replayed.afterPump (tagged : Tagged s) (handled : Handled s t first) (serial : Serial s.devs first s.array t.array)
    (replayed : Replayed t u accepted done) : Replayed s u accepted (first ++ done) := by
  have tags : s.pending.map Request.tag = first.map (fun x => x.1.tag) ++ t.pending.map Request.tag := by
    rw [handled.pending, map_append, map_map]
    rfl
  refine ⟨?_, serial.append (handled.devs ▸ replayed.serial), ?_, ?_⟩
  · rw [handled.pending, append_assoc, replayed.pending, map_append, append_assoc]
  · intro x member
    rcases mem_append.mp member with early | late
    · have listed : x.1.tag ∈ first.map fun x => x.1.tag := mem_map_of_mem early
      have waits : x.1 ∈ s.pending := by
        rw [handled.pending]
        exact mem_append_left _ (mem_map_of_mem early)
      rw [replayed.others _ (lt_of_lt_of_le (tagged.waiting _ waits).1 handled.tags)]
      · exact handled.answers x early
      intro again
      exact (nodup_append.mp (tags ▸ tagged.nodup)).2.2 _ listed _ again rfl
    · exact replayed.answers x late
  intro tag older absent
  rw [tags, mem_append, not_or] at absent
  rw [replayed.others tag (older.trans_le handled.tags) absent.2]
  exact handled.others tag older absent.1

theorem replay_replayed (steady : Steady s) (actions : List QueueAction) (orderly : Orderly s actions) :
    ∃ done, Replayed s (replay s actions).2 (replay s actions).1 done := by
  induction actions generalizing s with
  | nil => exact ⟨[], append_nil _, rfl, by simp, fun _ _ _ => rfl⟩
  | cons action rest ih =>
    cases action with
    | submit req =>
      have submitted := submit_submitted steady req rfl
      obtain ⟨done, replayed⟩ := ih submitted.steady orderly
      exact ⟨done, replayed.afterSubmit submitted⟩
    | pump budget =>
      obtain ⟨calm, orderly⟩ := orderly
      obtain ⟨first, handled, serial⟩ := pump_handled budget steady rfl
      obtain ⟨done, replayed⟩ := ih (handled.steady steady) orderly
      exact ⟨first ++ done, replayed.afterPump steady.tagged handled (serial calm)⟩

theorem replay_steady (steady : Steady s) (actions : List QueueAction) : Steady (replay s actions).2 := by
  induction actions generalizing s with
  | nil => exact steady
  | cons action rest ih =>
    cases action with
    | submit req => exact ih (submit_submitted steady req rfl).steady
    | pump budget =>
      obtain ⟨first, handled, -⟩ := pump_handled budget steady rfl
      exact ih (handled.steady steady)

theorem Fresh.steady (fresh : Fresh s) (served : AllServed s) : Steady s where
  tagged := by
    refine ⟨?_, ?_, fresh.idle.delivered, fresh.completed⟩
    · rw [fresh.pending]
      exact nodup_nil
    · rw [fresh.pending]
      simp
  sound := fresh.sound
  served := served
  bounded := by rw [fresh.pending]; exact zero_le _

/-- In an orderly run from fresh storage the requests answered so far are the
first accepted ones, and the disk blocks and the data read are those of carrying
them out one after another in the order of their submission. -/
theorem async_requests_in_order (fresh : Fresh start) (served : AllServed start) (actions : List QueueAction)
    (orderly : Orderly start actions) (ran : replay start actions = (accepted, s)) :
    ∃ done, accepted = done.map Prod.fst ++ s.pending ∧ Serial start.devs done start.backing s.array ∧
      ∀ x ∈ done, s.delivered.lookup x.1.tag = some x.2 := by
  obtain ⟨done, replayed⟩ := replay_replayed (fresh.steady served) actions orderly
  rw [ran] at replayed
  refine ⟨done, ?_, fresh.array ▸ replayed.serial, replayed.answers⟩
  have pending := replayed.pending
  rwa [fresh.pending, nil_append] at pending

/-- A write to the partition's first block, then one to the same block through
the disk, then a pump. -/
def overtaken : List QueueAction :=
  [.submit { op := .write, devIndex := 1, lba := 0, count := 1, buffer := some [fun _ => 7] },
    .submit { op := .write, devIndex := 0, lba := 2048, count := 1, buffer := some [fun _ => 9] }, .pump 2]

def labPair : Storage := labStorage (fun _ _ _ => 0) [labDisk, labPartition]

theorem labPair_fresh : Fresh labPair := labStorage_fresh _ _

theorem labPair_served : AllServed labPair := by
  have disk : labDisk.Cacheable := ⟨rfl, rfl⟩
  intro index d found
  match index with
  | 0 =>
    cases found
    exact .inl disk
  | 1 =>
    cases found
    exact .inr (.inr ⟨⟨0, 2048, 2048⟩, rfl, rfl, labDisk, rfl, disk⟩)
  | _ + 2 => cases found

/-- The later write to the disk takes effect first, so the block keeps what the
earlier write to the partition stored. -/
theorem overtaken_out_of_order : ¬ ∃ done, (replay labPair overtaken).1 = done.map Prod.fst ++ (replay labPair overtaken).2.pending ∧
    Serial labPair.devs done labPair.backing (replay labPair overtaken).2.array ∧
    ∀ x ∈ done, (replay labPair overtaken).2.delivered.lookup x.1.tag = some x.2 := by
  rintro ⟨done, names, serial, answers⟩
  have pending : (replay labPair overtaken).2.pending = [] :=
    isEmpty_iff.mp (show (replay labPair overtaken).2.pending.isEmpty = true by decide +kernel)
  rw [pending, append_nil] at names
  have accepted : (replay labPair overtaken).1 =
      [{ op := .write, devIndex := 1, lba := 0, count := 1, buffer := some [fun _ => 7], tag := 0 },
        { op := .write, devIndex := 0, lba := 2048, count := 1, buffer := some [fun _ => 9], tag := 1 }] := rfl
  rw [accepted] at names
  obtain ⟨⟨_, first⟩, rest, rfl, rfl, later⟩ := map_eq_cons_iff.mp names.symm
  obtain ⟨⟨_, second⟩, none, rfl, rfl, nil⟩ := map_eq_cons_iff.mp later
  cases map_eq_nil_iff.mp nil
  have answered := answers _ (mem_cons_of_mem _ mem_cons_self)
  have ok : ((replay labPair overtaken).2.delivered.lookup 1).all Response.isOk = true := by decide +kernel
  obtain ⟨blocks, rfl⟩ := isOk_exists (show second.isOk = true by simpa [answered] using ok)
  obtain ⟨b, -, c, overwritten, final⟩ := serial
  -- Executed in order, the write of nines comes last; the cache holds sevens.
  have nines : (replay labPair overtaken).2.array (0, 2048) 0 = 9 := by
    rw [final, show c = storeBlocks 0 2048 [fun _ => 9] b from overwritten]
    rfl
  have steady := replay_steady (labPair_fresh.steady labPair_served) overtaken
  have valid : ((replay labPair overtaken).2.lines 0).valid = true := by decide +kernel
  have sevens := contents_line steady.sound.coherent valid
  have data : ((replay labPair overtaken).2.lines 0).data 0 = 7 := by decide +kernel
  exact absurd (nines.symm.trans ((congrFun sevens 0).trans data)) (by decide)

def queuedBehind : List QueueAction :=
  [.submit { op := .write, devIndex := 0, lba := 2048, count := 1, buffer := some [fun _ => 9] },
    .submit { op := .write, devIndex := 1, lba := 0, count := 1, buffer := some [fun _ => 7] }, .pump 2]

theorem queuedBehind_orderly : Orderly labPair queuedBehind := by
  refine ⟨?_, trivial⟩
  intro i bound head rest dropped nests
  match i with
  | 0 =>
    cases dropped
    exact absurd nests (by decide)
  | 1 =>
    cases dropped
    exact pairwise_singleton _ _
  | _ + 2 => exact absurd bound (by simp)

theorem async_requests_in_order_behind : ∃ done : List (Request × Response),
    (replay labPair queuedBehind).1 = done.map Prod.fst ++ (replay labPair queuedBehind).2.pending ∧
      Serial labPair.devs done labPair.backing (replay labPair queuedBehind).2.array ∧
      ∀ x ∈ done, (replay labPair queuedBehind).2.delivered.lookup x.1.tag = some x.2 :=
  async_requests_in_order labPair_fresh labPair_served queuedBehind queuedBehind_orderly rfl

end DeanOS.Blockdev
