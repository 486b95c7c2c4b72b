import DeanOS.Pipes.Accounts

/-! Pipes under every sequence of calls by any number of tasks. -/
namespace DeanOS.Pipes
open Fallible Vfs Ledger Function Finset Option

/-! ### Making a pipe -/

/-- What the heap grants was free: addresses of live objects are not handed out again. -/
structure Grants.Granted (g : Grants) (h : Heap) : Prop where
  pipe : ∀ x, g.pipe = some x → h.pipes x = none
  readNode : ∀ a, g.readNode = some a → h.nodes a = none
  writeNode : ∀ a, g.writeNode = some a → h.nodes a = none
  readEnd : ∀ e, g.readEnd = some e → h.ends e = none
  writeEnd : ∀ e, g.writeEnd = some e → h.ends e = none
  nodes : ∀ a b, g.readNode = some a → g.readEnd.isSome → g.writeNode = some b → a ≠ b
  ends : ∀ e f, g.readEnd = some e → g.readNode.isSome → g.writeEnd = some f → e ≠ f

def Grants.Paired (g : Grants) : Prop :=
  g.pipe.isSome → (g.readNode.isSome ∧ g.readEnd.isSome ↔ g.writeNode.isSome ∧ g.writeEnd.isSome)

variable {cred : Cred} {g : Grants} {h : Heap}

theorem makeEnd_none (unmade : ¬ (node.isSome ∧ entry.isSome)) (x : Nat) (w : Bool) (h : Heap) :
    makeEnd cred x w node entry h = (h, none) := by
  cases node with
  | none => rfl
  | some a =>
    cases entry with
    | none => rfl
    | some e => exact absurd ⟨rfl, rfl⟩ unmade

variable (cred) in
theorem makePipe_spec (granted : g.Granted h) (paired : g.Paired) :
    makePipe cred g h = (h, none) ∨ ∃ x a b e f, Fresh h x a b e f ∧ makePipe cred g h = (withPipe cred x a b e f h, some (a, b)) := by
  obtain ⟨pipe, readNode, readEnd, writeNode, writeEnd⟩ := g
  cases pipe with
  | none => exact Or.inl rfl
  | some x =>
    by_cases made : readNode.isSome ∧ readEnd.isSome
    · obtain ⟨⟨a, rfl⟩, ⟨e, rfl⟩⟩ := And.imp isSome_iff_exists.mp isSome_iff_exists.mp made
      obtain ⟨⟨b, rfl⟩, ⟨f, rfl⟩⟩ := And.imp isSome_iff_exists.mp isSome_iff_exists.mp ((paired rfl).mp made)
      right
      refine ⟨x, a, b, e, f, ?_, rfl⟩
      exact ⟨granted.pipe x rfl, granted.readNode a rfl, granted.writeNode b rfl, granted.readEnd e rfl, granted.writeEnd f rfl,
        granted.nodes a b rfl rfl rfl, granted.ends e f rfl rfl rfl⟩
    have unmade := mt (paired rfl).mpr made
    left
    have undone : (h.setPipe x (some .fresh)).setPipe x none = h := by simp [Heap.setPipe, ← granted.pipe x rfl]
    have step : makePipe cred ⟨some x, readNode, readEnd, writeNode, writeEnd⟩ h = ((h.setPipe x (some .fresh)).setPipe x none, none) := by
      simp only [makePipe, Bind.bind, unwrap, edit, makeEnd_none made, makeEnd_none unmade]
      rfl
    rw [step, undone]

theorem fdAlloc_free (found : Caller.fdAlloc fds = some fd) : fds fd = none := by
  have := List.find?_some found
  simp only [Bool.and_eq_true, isNone_iff_eq_none] at this
  exact this.2

theorem fdAllocBut_free (found : fdAllocBut taken fds = some fd) : fds fd = none ∧ fd ≠ taken := by
  have := List.find?_some found
  simp only [Bool.and_eq_true, isNone_iff_eq_none, decide_eq_true_eq] at this
  exact ⟨this.1.2, this.2⟩

theorem onFs_returns (returned : program s.fs = (fs, some answer)) : Tasks.onFs program s = ({ s with fs }, some answer) := by
  simp only [Tasks.onFs, zoom, returned]

section
variable {ι τ ν : Type} {files : Driver τ ν} {pipeRead : Nat → Nat → Fallible Heap (List UInt8)}
  {pipeWrite : Nat → List UInt8 → Fallible Heap Nat} {s : Tasks ι (Heap × τ) (Ref ν)} {i : ι}

def endOf (s : Tasks ι (Heap × τ) (Ref ν)) (p : Place ι) : Option Nat :=
  match s.holds p with
  | some (.pipe a) => s.fs.1.nodes a >>= PipeNode.impl
  | _ => none

def sideOf (s : Tasks ι (Heap × τ) (Ref ν)) (p : Place ι) : Option (Nat × Bool) :=
  endOf s p >>= fun e => (s.fs.1.ends e).map fun entry => (entry.pipe, entry.isWriter)

theorem endOf_of_link (linked : Linked cred s.fs.1 links k) (live : links a = some l)
    (p : Place ι) : s.holds p = some (.pipe a) ↔ endOf s p = some l.entry := by
  constructor
  · intro found
    simp [endOf, found, linked.node a, live]
  intro found
  unfold endOf at found
  split at found
  · next b held =>
    rw [linked.node b] at found
    cases linked' : links b with
    | none => simp [linked'] at found
    | some m =>
      simp only [linked', map_some, bind_eq_bind, bind_some, some.injEq] at found
      rw [held, linked.single linked' live found]
  · cases found

theorem sideOf_of_link (linked : Linked cred s.fs.1 links k) (p : Place ι) :
    sideOf s p = some (x, w) ↔ ∃ a l, links a = some l ∧ l.pipe = x ∧ l.isWriter = w ∧ s.holds p = some (.pipe a) := by
  constructor
  · intro found
    obtain ⟨e, named, side⟩ := bind_eq_some_iff.mp found
    obtain ⟨entry, ends, same⟩ := map_eq_some_iff.mp side
    obtain ⟨a, l, live, rfl, rfl⟩ := linked.of_end ends
    cases same
    exact ⟨a, l, live, rfl, rfl, (endOf_of_link linked live p).mpr named⟩
  · rintro ⟨a, l, live, rfl, rfl, held⟩
    simp [sideOf, (endOf_of_link linked live p).mp held, linked.entry live]

variable [Fintype ι] [DecidableEq ν]

/-- All counters are exact, no end and no pipe outlives its references, and nothing refers
to one that is gone. -/
structure Sound (s : Tasks ι (Heap × τ) (Ref ν)) : Prop where
  attached : ∀ p a, s.holds p = some (.pipe a) → (s.fs.1.resolve a).isSome
  refs : ∀ e entry, s.fs.1.ends e = some entry → entry.refs = tally univ (endOf s) e ∧ 0 < entry.refs
  users : ∀ x p, s.fs.1.pipes x = some p → p.readers = tally univ (sideOf s) (x, false) ∧
    p.writers = tally univ (sideOf s) (x, true) ∧ (0 < p.readers ∨ 0 < p.writers)

theorem users_of_link (linked : Linked cred s.fs.1 links fun a => tally univ s.holds (.pipe a))
    (pipe : s.fs.1.pipes x = some p) (w : Bool) : p.users w = tally univ (sideOf s) (x, w) := by
  by_cases found : ∃ a l, links a = some l ∧ l.pipe = x ∧ l.isWriter = w
  · obtain ⟨a, l, live, rfl, rfl⟩ := found
    obtain ⟨q, pipe', users⟩ := linked.pipe live
    cases pipe.symm.trans pipe'
    rw [users]
    apply tally_iff
    intro place _
    rw [sideOf_of_link linked]
    constructor
    · intro held
      exact ⟨a, l, live, rfl, rfl, held⟩
    · rintro ⟨b, m, live', same, side, held⟩
      rwa [linked.apart live' live same side] at held
  have unused : p.users w = 0 := by
    apply linked.idle pipe
    intro a l live same side
    exact found ⟨a, l, live, same, side⟩
  rw [unused, eq_comm, tally_eq_zero]
  intro place _ side
  obtain ⟨a, l, live, same, side, _⟩ := (sideOf_of_link linked place).mp side
  exact found ⟨a, l, live, same, side⟩

/-- No task holds anything, and the heap holds nothing of pipes. -/
def boot (t : τ) : Tasks ι (Heap × τ) (Ref ν) := ⟨(⟨fun _ => none, fun _ => none, fun _ => none⟩, t), fun _ => .empty⟩

theorem held_boot (t : τ) : Held (driver files pipeRead pipeWrite) (Exact cred) univ none (boot t : Tasks ι (Heap × τ) (Ref ν)) := by
  refine ⟨⟨fun _ => none, ?_, fun a l live => by cases live⟩, fun p out => absurd (mem_univ p) out⟩
  have unused : ∀ r, tally univ (boot t : Tasks ι (Heap × τ) (Ref ν)).holds r = 0 := by
    intro r
    rw [tally_eq_zero]
    rintro ⟨i, place⟩ _ held
    cases place with
    | inl fd | inr r => cases held
  constructor
  · exact fun a => rfl
  · intro a l live
    cases live
  · intro a l live
    cases live
  · intro a _
    simp [unused]
  · exact fun _ => rfl
  · exact fun _ => rfl
  · intro x p w found
    cases found
  · intro a b l m live
    cases live
  · intro a b l m live
    cases live

theorem sound_of_held (held : Held (driver files pipeRead pipeWrite) (Exact cred) univ none s) : Sound s := by
  obtain ⟨links, linked, inUse⟩ := held.balance
  constructor
  · intro p a found
    obtain ⟨l, live⟩ := linked.live_of_used (tally_pos (mem_univ p) found)
    obtain ⟨q, pipe, _⟩ := linked.pipe live
    rw [linked.resolve live pipe]
    rfl
  · intro e entry ends
    obtain ⟨a, l, live, rfl, rfl⟩ := linked.of_end ends
    exact ⟨tally_iff fun p _ => endOf_of_link linked live p, inUse a l live⟩
  intro x p pipe
  refine ⟨users_of_link linked pipe false, users_of_link linked pipe true, ?_⟩
  obtain ⟨a, l, live, rfl⟩ := linked.of_pipe pipe
  obtain ⟨q, pipe', users⟩ := linked.pipe live
  cases pipe.symm.trans pipe'
  have pos : 0 < p.users l.isWriter := by
    rw [users]
    exact inUse a l live
  cases side : l.isWriter with
  | false =>
    rw [side] at pos
    exact Or.inl pos
  | true =>
    rw [side] at pos
    exact Or.inr pos

variable [DecidableEq ι]

variable (files pipeRead pipeWrite) in
theorem exact_attach {h : Heap} {t : τ} {c : Ref ν → Nat} (exact : Exact cred (h, t) c) {x a b e f : Nat} (fresh : Fresh h x a b e f) :
    ∃ h₁ h₂, (driver files pipeRead pipeWrite).openNode cred (.pipe a) .readOnly (withPipe cred x a b e f h, t) = ((h₁, t), some ()) ∧
      (driver files pipeRead pipeWrite).openNode cred (.pipe b) writeOnly (h₁, t) = ((h₂, t), some ()) ∧
      Exact cred (h₂, t) (more (.pipe b) (more (.pipe a) c)) := by
  obtain ⟨links, linked, inUse⟩ := exact
  have read : withLinks x a b e f links a = some ⟨e, x, false⟩ := by
    simp [withLinks, fresh.nodes]
  have write : withLinks x a b e f links b = some ⟨f, x, true⟩ := by
    simp [withLinks]
  obtain ⟨h₁, opened, linked₁⟩ := (linked.attach fresh).openNode files pipeRead pipeWrite read .readOnly t
  obtain ⟨h₂, opened', linked₂⟩ := linked₁.openNode files pipeRead pipeWrite write writeOnly t
  refine ⟨h₁, h₂, opened, opened', withLinks x a b e f links, ?_, fun d m found => ?_⟩
  · have apart : more (.pipe a) c (.pipe b) = c (.pipe b) := by
      simp [more, weight_some, fresh.nodes]
    rw [more_pipe, more_pipe, apart]
    simpa [Ne.symm fresh.nodes] using linked₂
  simp only [more]
  by_cases here : d = b
  · subst here
    simp
  by_cases there : d = a
  · subst there
    simp
  simp only [withLinks, update_of_ne here, update_of_ne there] at found
  have := inUse d m found
  omega

def installed (i : ι) (readFd writeFd : Fin maxFds) (a b : Nat) (s : Tasks ι (Heap × τ) (Ref ν)) : Tasks ι (Heap × τ) (Ref ν) :=
  (s.setFd i readFd (some ⟨.pipe a, 0, .readOnly, false⟩)).setFd i writeFd (some ⟨.pipe b, 0, writeOnly, false⟩)

theorem tally_installed (free : (s.tables i).fds readFd = none)
    (free' : (s.tables i).fds writeFd = none) (differ : writeFd ≠ readFd) (m : Ref ν) :
    tally univ (installed i readFd writeFd a b s).holds m + weight none m =
      more (.pipe b) (more (.pipe a) (fun m => tally univ s.holds m + weight none m)) m := by
  have first := tally_change (mem_univ (i, Sum.inl readFd))
    (fun q _ other => Tasks.sameBut_setFd s i readFd (some ⟨.pipe a, 0, .readOnly, false⟩) q other) m
  have second := tally_change (mem_univ (i, Sum.inl writeFd))
    (fun q _ other => Tasks.sameBut_setFd (s.setFd i readFd (some ⟨.pipe a, 0, .readOnly, false⟩)) i writeFd
      (some ⟨.pipe b, 0, writeOnly, false⟩) q other) m
  have was : s.holds (i, .inl readFd) = none := by
    simp [Tasks.holds, free]
  have was' : (s.setFd i readFd (some ⟨.pipe a, 0, .readOnly, false⟩)).holds (i, .inl writeFd) = none := by
    simp [Tasks.holds, Tasks.setFd, Tasks.setTables, update_of_ne differ, free']
  rw [was, Tasks.holds_setFd, weight_none] at first
  rw [was', Tasks.holds_setFd, weight_none] at second
  simp only [installed, more, weight_none, map_some] at first second ⊢
  omega

/-! ### Every run -/

/-- The calls that change what the tables hold of pipes; `file` stands for the calls on
files beside them. -/
inductive Event (ι τ ν : Type) where
  | pipe (i : ι) (g : Grants)
  | dup2 (i : ι) (oldfd newfd : Fin maxFds)
  | close (i : ι) (fd : Fin maxFds)
  | setCloexec (i : ι) (fd : Fin maxFds) (cloexec : Bool)
  | fork (parent child : ι) (copied installed : Bool)
  | redirect (src dst : ι) (target fd : Fin maxFds)
  | exec (i : ι) (replaced adopted : Bool)
  | die (i : ι)
  | mmap (i : ι) (start length offset : Nat) (source : Option (Fin maxFds))
  | munmap (i : ι) (addr length : Nat)
  | file (i : ι) (fd : Fin maxFds) (opened : Fd ν) (files : τ)

/-- What the heap and the task table say to a call: fresh memory, an unused child, an
unused descriptor. -/
def Event.Enabled (s : Tasks ι (Heap × τ) (Ref ν)) : Event ι τ ν → Prop
  | pipe _ g => g.Granted s.fs.1
  | fork _ child _ _ => s.tables child = .empty
  | file i fd _ _ => (s.tables i).fds fd = none
  | _ => True

def Event.perform (d : Driver (Heap × τ) (Ref ν)) (cred : Cred) (s : Tasks ι (Heap × τ) (Ref ν)) : Event ι τ ν → Tasks ι (Heap × τ) (Ref ν)
  | pipe i g => (Tasks.asTask i (fdPipe d cred g) s).1
  | dup2 i oldfd newfd => (Tasks.asTask i (Caller.fdDup2 d cred oldfd newfd) s).1
  | close i fd => (Tasks.asTask i (Caller.fdClose d fd) s).1
  | setCloexec i fd cloexec => s.fdSetCloexec i fd cloexec
  | fork parent child copied installed => (Tasks.fork d cred parent child copied installed s).1
  | redirect src dst target fd => (Tasks.cloneFdTo d cred src dst target fd s).1
  | exec i replaced adopted => Tasks.exec d i replaced adopted s
  | die i => Tasks.die d i s
  | mmap i start length offset source => (Tasks.mmap d cred i start length offset source s).1
  | munmap i addr length => (Tasks.munmap d cred i addr length s).1
  | file i fd opened files => .setFd i fd (some { opened with node := .file opened.node }) { s with fs := (s.fs.1, files) }

def Event.Paired : Event ι τ ν → Prop
  | pipe _ g => g.Paired
  | _ => True

def PairedStep (d : Driver (Heap × τ) (Ref ν)) (cred : Cred) (s u : Tasks ι (Heap × τ) (Ref ν)) : Prop :=
  ∃ event : Event ι τ ν, event.Enabled s ∧ event.Paired ∧ u = event.perform d cred s

section
variable (held : Held (driver files pipeRead pipeWrite) (Exact cred) univ none s)
include held

theorem held_fdPipe (granted : g.Granted s.fs.1)
    (paired : g.Paired) : Held (driver files pipeRead pipeWrite) (Exact cred) univ none
      (Tasks.asTask i (fdPipe (driver files pipeRead pipeWrite) cred g) s).1 := by
  apply Ends.state
  simp only [fdPipe, Tasks.asTask_bind, Tasks.asTask_fds, Tasks.asTask_unwrap, Tasks.asTask_onFs, Tasks.asTask_setFd, Tasks.asTask_onFail,
    Tasks.asTask_pure]
  rw [peek_bind]
  refine .unwrapped (fun _ => held) fun readFd found => .unwrapped (fun _ => held) fun writeFd found' => ?_
  have free := fdAlloc_free found
  obtain ⟨free', differ⟩ := fdAllocBut_free found'
  rcases makePipe_spec cred granted paired with refused | ⟨x, a, b, e, f, fresh, made⟩
  · have same : Tasks.onFs (zoom Prod.fst (fun h s => (h, s.2)) (makePipe cred g)) s = (s, none) := by
      simp [Tasks.onFs, zoom, refused]
    refine .bind (P := fun _ _ => False) ?_ fun _ _ impossible => impossible.elim
    rw [same]
    exact .gaveUp held
  obtain ⟨h₁, h₂, opened, opened', exact⟩ := exact_attach files pipeRead pipeWrite held.balance fresh
  have granted : zoom Prod.fst (fun h s => (h, s.2)) (makePipe cred g) s.fs = ((withPipe cred x a b e f s.fs.1, s.fs.2), some (a, b)) := by
    simp only [zoom, made]
  apply Ends.step (onFs_returns granted)
  change Ends _ _ ((onFail (Tasks.onFs _ >>= fun _ => Tasks.onFs _) _ >>= fun _ => pure (readFd, writeFd))
    { installed i readFd writeFd a b s with fs := (withPipe cred x a b e f s.fs.1, s.fs.2) })
  refine .bind (P := fun _ t => t = { installed i readFd writeFd a b s with fs := (h₂, s.fs.2) }) ?_ ?_
  · refine .onFail ?_ (fun _ => False.elim)
    apply Ends.step (onFs_returns opened)
    rw [onFs_returns opened']
    exact .returned rfl
  rintro _ _ rfl
  refine .returned ⟨?_, fun p out => absurd (mem_univ p) out⟩
  convert exact using 1
  funext m
  exact tally_installed free free' differ m

theorem held_file (free : (s.tables i).fds fd = none) (opened : Fd ν) (t : τ) :
    Held (driver files pipeRead pipeWrite) (Exact cred) univ none
      (.setFd i fd (some { opened with node := .file opened.node }) { s with fs := (s.fs.1, t) }) := by
  refine ⟨?_, fun p out => absurd (mem_univ p) out⟩
  obtain ⟨links, linked, inUse⟩ := held.balance
  have was : s.holds (i, .inl fd) = none := by
    simp [Tasks.holds, free]
  have same : ∀ a, tally univ (s.setFd i fd (some { opened with node := .file opened.node })).holds (.pipe a) =
      tally univ s.holds (.pipe a) := by
    intro a
    have change := tally_change (mem_univ (i, Sum.inl fd))
      (fun q _ other => Tasks.sameBut_setFd s i fd (some { opened with node := .file opened.node }) q other) (.pipe a)
    rw [was, Tasks.holds_setFd] at change
    simpa [weight_some] using change
  simp only [← same] at linked inUse
  exact ⟨links, linked, inUse⟩

theorem held_perform {event : Event ι τ ν} (enabled : event.Enabled s) (paired : event.Paired) :
    Held (driver files pipeRead pipeWrite) (Exact cred) univ none (event.perform (driver files pipeRead pipeWrite) cred s) := by
  cases event with
  | pipe i g => exact held_fdPipe held enabled paired
  | dup2 i oldfd newfd => exact held.fdDup2 driver_keeps
  | close i fd => exact Ends.state ((held.fdClose driver_keeps).mono (fun _ _ closed => closed.1) fun _ refused => refused.1)
  | setCloexec i fd cloexec => exact held.fdSetCloexec fd cloexec
  | fork parent child copied installed => exact held.fork driver_keeps enabled copied installed
  | redirect src dst target fd => exact held.cloneFdTo driver_keeps
  | exec i replaced adopted => exact held.exec driver_keeps replaced adopted
  | die i => exact held.die driver_keeps
  | mmap i start length offset source => exact held.mmap driver_keeps start length offset source
  | munmap i addr length => exact held.munmap driver_keeps addr length
  | file i fd opened t => exact held_file held enabled opened t

end

/-- In every run in which each pipe is made with both its ends or with none. -/
theorem pipe_counters_exact (t : τ) (run : Relation.ReflTransGen (PairedStep (driver files pipeRead pipeWrite) cred) (boot t) s) :
    Sound s := by
  have held : Held (driver files pipeRead pipeWrite) (Exact cred) univ none s := by
    induction run with
    | refl => exact held_boot t
    | tail _ step ih =>
      obtain ⟨event, enabled, paired, rfl⟩ := step
      exact held_perform ih enabled paired
  exact sound_of_held held

end

def noFiles : Driver Unit Empty where
  attributes _ n := n.elim
  setMode n := n.elim
  resolve _ s := (s, some none)
  openHook n := n.elim
  closeHook n := n.elim
  readHook n := n.elim
  writeHook n := n.elim
  createHook n := n.elim
  unlinkHook n := n.elim

def pipesOnly : Driver (Heap × Unit) (Ref Empty) := driver noFiles (fun _ _ => fail) (fun _ _ => fail)

def madePipe : Event Bool Unit Empty := .pipe false ⟨some 0, some 1, some 2, some 3, some 4⟩
def forkedPipe : Event Bool Unit Empty := .fork false true true true

def shared : Tasks Bool (Heap × Unit) (Ref Empty) := forkedPipe.perform pipesOnly ⟨0, 0⟩ (madePipe.perform pipesOnly ⟨0, 0⟩ (boot ()))

theorem madePipe_enabled : madePipe.Enabled (boot ()) where
  pipe _ _ := rfl
  readNode _ _ := rfl
  writeNode _ _ := rfl
  readEnd _ _ := rfl
  writeEnd _ _ := rfl
  nodes := by
    rintro _ _ ⟨⟩ _ ⟨⟩
    decide
  ends := by
    rintro _ _ ⟨⟩ _ ⟨⟩
    decide

theorem shared_reached : Relation.ReflTransGen (PairedStep pipesOnly ⟨0, 0⟩) (boot ()) shared := by
  refine (Relation.ReflTransGen.single ?_).tail ⟨forkedPipe, ?_, trivial, rfl⟩
  · exact ⟨madePipe, madePipe_enabled, fun _ => by decide, rfl⟩
  · rfl

theorem pipe_counters_exact_forked : (shared.fs.1.ends 2).map End.refs = some 2 ∧ Sound shared :=
  ⟨rfl, pipe_counters_exact () shared_reached⟩

def halfPipe : Event Unit Unit Empty := .pipe () ⟨some 0, some 1, some 2, none, none⟩

theorem pipe_end_leaks : halfPipe.Enabled (boot ()) ∧ ¬ Sound (halfPipe.perform pipesOnly ⟨0, 0⟩ (boot ())) := by
  constructor
  · constructor
    case nodes | ends => rintro _ _ _ _ ⟨⟩
    all_goals exact fun _ _ => rfl
  intro sound
  exact absurd (sound.refs 2 ⟨0, false, 0⟩ rfl).2 (Nat.lt_irrefl 0)

end DeanOS.Pipes
