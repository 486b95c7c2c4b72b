import DeanOS.Task.Exec

/-! What `elf_build_argv_stack` stores, and what a program reads back from it at its entry. -/
namespace DeanOS.Vm.Elf
open Function List Nat

variable {mem mem' : Nat → BitVec 8} {addr ustk top p p' total fuel : Nat} {s : Nat × BitVec 8} {bytes : List (BitVec 8)}
  {stores stores' : List (Nat × BitVec 8)} {pointers pointers' : List Nat} {argv done : List (List (BitVec 8))}

/-! ### Where the stores go -/

theorem storesAt_range (member : s ∈ storesAt addr bytes) : addr ≤ s.1 ∧ s.1 < addr + bytes.length := by
  obtain ⟨i, inside, rfl⟩ := mem_mapIdx.mp member
  exact ⟨Nat.le_add_right .., Nat.add_lt_add_left inside _⟩

/-- Strings are stored between the end of the stack and the place where the first one goes. -/
theorem placeStrings_range (ustk : Nat) (strings : List (List (BitVec 8))) (p total : Nat) (pointers : List Nat)
    (stores : List (Nat × BitVec 8)) (high : p ≤ top) (before : ∀ s ∈ stores, ustk ≤ s.1 ∧ s.1 < top) :
    (∀ s ∈ (placeStrings ustk strings p total pointers stores).1, ustk ≤ s.1 ∧ s.1 < top) ∧
      ∀ p' pointers', (placeStrings ustk strings p total pointers stores).2 = some (p', pointers') →
        p' ≤ top ∧ pointers'.length = strings.length + pointers.length := by
  induction strings generalizing p total pointers stores with
  | nil =>
    refine ⟨before, fun p' pointers' ends => ?_⟩
    cases ends
    exact ⟨high, (zero_add _).symm⟩
  | cons string rest ih =>
    simp only [placeStrings]
    split
    · exact ⟨before, nofun⟩
    case isFalse fits =>
      simp only [Bool.or_eq_true, decide_eq_true_eq, not_or, not_lt] at fits
      obtain ⟨stored, ends⟩ := ih (p - (string.length + 1)) (total + (string.length + 1)) ((p - (string.length + 1)) :: pointers)
        (stores ++ storesAt (p - (string.length + 1)) (string ++ [0])) (by omega) fun s member => by
          rcases mem_append.mp member with older | newer
          · exact before s older
          have range := storesAt_range newer
          simp only [length_append, length_singleton] at range
          omega
      refine ⟨stored, fun p' pointers' final => ?_⟩
      obtain ⟨high', count⟩ := ends p' pointers' final
      simp only [length_cons] at count ⊢
      exact ⟨high', by omega⟩

theorem length_words (words : List Nat) : (words.flatMap wordBytes).length = 4 * words.length := by
  induction words with
  | nil => rfl
  | cons w rest ih =>
    rw [flatMap_cons, length_append, ih, length_cons]
    simp only [wordBytes, length_map, length_range]
    omega

theorem buildArgvStack_range (ustk : Nat) (argv : List (List (BitVec 8))) :
    ∀ s ∈ (buildArgvStack ustk argv).stores, ustk ≤ s.1 ∧ s.1 < ustk + elfUserStackSize := by
  unfold buildArgvStack
  split
  · exact nofun
  have top : (ustk + elfUserStackSize) % addressSpan / 16 * 16 ≤ ustk + elfUserStackSize :=
    (div_mul_le_self ..).trans (mod_le ..)
  obtain ⟨stored, ends⟩ := placeStrings_range ustk argv.reverse _ 0 [] [] top nofun
  split
  case h_1 stores full =>
    rw [full] at stored
    exact stored
  case h_2 stores p pointers placed =>
    rw [placed] at stored ends
    obtain ⟨high, count⟩ := ends p pointers rfl
    simp only [length_reverse, length_nil, add_zero] at count
    dsimp only
    split
    · exact stored
    case isFalse fits =>
      intro s member
      rcases mem_append.mp member with older | newer
      · exact stored s older
      have range := storesAt_range newer
      simp only [length_words, length_cons, length_append, length_nil, count] at range
      omega

/-! ### Reading memory -/

def after (stores : List (Nat × BitVec 8)) (mem : Nat → BitVec 8) : Nat → BitVec 8 :=
  stores.foldl (fun mem s => update mem s.1 s.2) mem

def wordAt (mem : Nat → BitVec 8) (addr : Nat) : Nat :=
  (mem addr).toNat + 256 * (mem (addr + 1)).toNat + 65536 * (mem (addr + 2)).toNat + 16777216 * (mem (addr + 3)).toNat

def stringAt (mem : Nat → BitVec 8) : Nat → Nat → List (BitVec 8)
  | 0, _ => []
  | fuel + 1, addr => if mem addr = 0 then [] else mem addr :: stringAt mem fuel (addr + 1)

/-- The arguments that a program finds at its entry: `argc` and then the pointers to the strings. -/
def decodeArgv (mem : Nat → BitVec 8) (esp : Nat) : List (List (BitVec 8)) :=
  (range (wordAt mem esp)).map fun i => stringAt mem elfArgvBytesMax (wordAt mem (esp + 4 + 4 * i))

def Stored (mem : Nat → BitVec 8) : Nat → List (BitVec 8) → Prop
  | _, [] => True
  | addr, b :: rest => mem addr = b ∧ Stored mem (addr + 1) rest

theorem after_append : after (stores ++ stores') mem = after stores' (after stores mem) := foldl_append

theorem after_other (other : ∀ s ∈ stores, s.1 ≠ addr) : after stores mem addr = mem addr := by
  induction stores generalizing mem with
  | nil => rfl
  | cons s rest ih =>
    refine (ih fun s member => other s (mem_cons_of_mem _ member)).trans ?_
    exact update_of_ne (other s (mem_cons_self ..)).symm ..

theorem storesAt_cons (addr : Nat) (b : BitVec 8) (rest : List (BitVec 8)) :
    storesAt addr (b :: rest) = (addr, b) :: storesAt (addr + 1) rest := by
  rw [storesAt, mapIdx_cons]
  simp [storesAt, add_assoc, add_comm 1]

theorem stored_after (addr : Nat) (bytes : List (BitVec 8)) (mem : Nat → BitVec 8) :
    Stored (after (storesAt addr bytes) mem) addr bytes := by
  induction bytes generalizing addr mem with
  | nil => trivial
  | cons b rest ih =>
    rw [storesAt_cons]
    refine ⟨?_, ih (addr + 1) _⟩
    show after (storesAt (addr + 1) rest) (update mem addr b) addr = b
    rw [after_other fun s member => ne_of_gt (storesAt_range member).1, update_self]

theorem Stored.congr (stored : Stored mem addr bytes) (same : ∀ a ≥ addr, mem' a = mem a) : Stored mem' addr bytes := by
  induction bytes generalizing addr with
  | nil => trivial
  | cons b rest ih => exact ⟨(same addr le_rfl).trans stored.1, ih stored.2 fun a above => same a (by omega)⟩

theorem stringAt_stored (stored : Stored mem addr (string ++ [0])) (text : 0 ∉ string)
    (enough : string.length < fuel) : stringAt mem fuel addr = string := by
  induction string generalizing addr fuel with
  | nil =>
    obtain ⟨n, rfl⟩ := Nat.exists_eq_add_of_lt enough
    simp [stringAt, stored.1]
  | cons b rest ih =>
    obtain ⟨n, rfl⟩ := exists_eq_add_one_of_ne_zero ((zero_lt_of_lt enough).ne')
    simp only [mem_cons, not_or, length_cons] at text enough
    rw [stringAt, stored.1, if_neg (Ne.symm text.1), ih stored.2 text.2 (by omega)]

theorem wordAt_stored {words : List Nat} (stored : Stored mem addr (words.flatMap wordBytes))
    (small : ∀ w ∈ words, w < addressSpan) (i : Nat) (inside : i < words.length) : wordAt mem (addr + 4 * i) = words[i] := by
  induction words generalizing addr i with
  | nil => cases inside
  | cons w rest ih =>
    obtain ⟨b₀, b₁, b₂, b₃, stored⟩ := stored
    cases i with
    | zero =>
      have bound := small w (mem_cons_self ..)
      simp only [addressSpan] at bound
      simp only [wordAt, mul_zero, add_zero, b₀, b₁, b₂, b₃, BitVec.toNat_ofNat, getElem_cons_zero]
      omega
    | succ i =>
      have later := ih stored (fun w member => small w (mem_cons_of_mem _ member)) i (lt_of_succ_lt_succ inside)
      rw [getElem_cons_succ, ← later]
      congr 1
      omega

/-! ### The layout -/

/-- The strings lie one after the other from an address to `top`, where the pointers point. -/
def Tiled (mem : Nat → BitVec 8) (top : Nat) : Nat → List Nat → List (List (BitVec 8)) → Prop
  | p, [], [] => p = top
  | p, pointer :: pointers, string :: rest =>
    pointer = p ∧ Stored mem p (string ++ [0]) ∧ Tiled mem top (p + (string.length + 1)) pointers rest
  | _, _, _ => False

def argvBytes (argv : List (List (BitVec 8))) : Nat := (argv.map fun string => string.length + 1).sum

theorem Tiled.congr (tiled : Tiled mem top p pointers argv) (same : ∀ a ≥ p, mem' a = mem a) :
    Tiled mem' top p pointers argv := by
  fun_induction Tiled mem top p pointers argv with
  | case1 p => exact tiled
  | case2 p pointer pointers string rest ih =>
    obtain ⟨here, stored, tiled⟩ := tiled
    exact ⟨here, stored.congr same, ih tiled fun a above => same a (by omega)⟩
  | case3 => exact tiled.elim

theorem Tiled.spec (tiled : Tiled mem top p pointers argv) :
    p + argvBytes argv = top ∧ pointers.length = argv.length ∧ ∀ i (inside : i < argv.length) (listed : i < pointers.length),
      p ≤ pointers[i] ∧ pointers[i] + argv[i].length < top ∧ Stored mem pointers[i] (argv[i] ++ [0]) := by
  fun_induction Tiled mem top p pointers argv with
  | case1 p => exact ⟨tiled, rfl, nofun⟩
  | case2 p pointer pointers string rest ih =>
    obtain ⟨rfl, stored, tiled⟩ := tiled
    obtain ⟨size, count, all⟩ := ih tiled
    simp only [argvBytes, map_cons, sum_cons] at size ⊢
    refine ⟨by omega, congrArg (· + 1) count, fun i inside listed => ?_⟩
    cases i with
    | zero => exact ⟨le_rfl, by simp only [getElem_cons_zero]; omega, stored⟩
    | succ i =>
      obtain ⟨low, high, stored⟩ := all i (lt_of_succ_lt_succ inside) (lt_of_succ_lt_succ listed)
      exact ⟨by simp only [getElem_cons_succ]; omega, high, stored⟩
  | case3 => exact tiled.elim

theorem placeStrings_tiled (strings : List (List (BitVec 8)))
    (placed : placeStrings ustk strings p total pointers stores = (stores', some (p', pointers')))
    (tiled : Tiled (after stores mem) top p pointers done) :
    Tiled (after stores' mem) top p' pointers' (strings.reverse ++ done) := by
  induction strings generalizing p total pointers stores done with
  | nil =>
    cases placed
    exact tiled
  | cons string rest ih =>
    simp only [placeStrings] at placed
    split at placed
    · cases placed
    case isFalse fits =>
      simp only [Bool.or_eq_true, decide_eq_true_eq, not_or, not_lt] at fits
      have back : p - (string.length + 1) + (string.length + 1) = p := by omega
      rw [reverse_cons, append_assoc]
      apply ih placed
      rw [after_append]
      refine ⟨rfl, stored_after .., back.symm ▸ tiled.congr fun a above => after_other fun s member => ?_⟩
      have range := storesAt_range member
      simp only [length_append, length_singleton] at range
      omega

/-- With room for all strings that the budget allows, only the budget counts. -/
theorem placeStrings_isSome (strings : List (List (BitVec 8))) (room : ustk + elfArgvBytesMax ≤ p + total)
    (within : total ≤ elfArgvBytesMax) :
    (placeStrings ustk strings p total pointers stores).2.isSome ↔ total + argvBytes strings ≤ elfArgvBytesMax := by
  induction strings generalizing p total pointers stores with
  | nil => exact iff_of_true rfl within
  | cons string rest ih =>
    simp only [placeStrings, argvBytes, map_cons, sum_cons, Bool.or_eq_true, decide_eq_true_eq]
    split
    · exact iff_of_false (by simp) (by omega)
    · rw [ih (by omega) (by omega), argvBytes, add_assoc]

structure Entry (mem : Nat → BitVec 8) (esp : Nat) (argv : List (List (BitVec 8))) : Prop where
  aligned : esp % 4 = 0
  decoded : decodeArgv mem esp = argv
  null : wordAt mem (esp + 4 + 4 * argv.length) = 0
  apart : ∀ i < argv.length, esp + 4 * (argv.length + 2) ≤ wordAt mem (esp + 4 + 4 * i)

theorem Tiled.entry {esp : Nat} (tiled : Tiled mem top p pointers argv) (high : top < addressSpan)
    (few : argv.length ≤ elfArgvMax) (text : ∀ string ∈ argv, 0 ∉ string) (budget : argvBytes argv ≤ elfArgvBytesMax)
    (aligned : esp % 4 = 0) (below : esp + 4 * (argv.length + 2) ≤ p) :
    Entry (after (storesAt esp ((argv.length :: (pointers ++ [0])).flatMap wordBytes)) mem) esp argv := by
  obtain ⟨size, count, strings⟩ := tiled.spec
  have stored := stored_after esp ((argv.length :: (pointers ++ [0])).flatMap wordBytes) mem
  have same : ∀ a ≥ p, after (storesAt esp ((argv.length :: (pointers ++ [0])).flatMap wordBytes)) mem a = mem a := by
    refine fun a above => after_other fun s member => ?_
    have range := storesAt_range member
    simp only [length_words, length_cons, length_append, length_nil] at range
    omega
  generalize after (storesAt esp ((argv.length :: (pointers ++ [0])).flatMap wordBytes)) mem = final at stored same ⊢
  have small : ∀ w ∈ argv.length :: (pointers ++ [0]), w < addressSpan := by
    simp only [mem_cons, mem_append, not_mem_nil, or_false]
    rintro w (rfl | listed | rfl)
    · exact lt_of_le_of_lt few (by decide)
    · obtain ⟨i, inside, rfl⟩ := getElem_of_mem listed
      have range := strings i (count ▸ inside) inside
      omega
    · decide
  have words := wordAt_stored stored small
  have argc : wordAt final esp = argv.length := words 0 (zero_lt_succ _)
  have pointer (i : Nat) (inside : i < pointers.length) : wordAt final (esp + 4 + 4 * i) = pointers[i] := by
    have word := words (i + 1) (by simp only [length_cons, length_append]; omega)
    rw [getElem_cons_succ, getElem_append_left inside] at word
    rw [← word, add_assoc, mul_succ, add_comm 4]
  constructor
  case aligned => exact aligned
  case decoded =>
    rw [decodeArgv, argc]
    apply ext_getElem
    · rw [length_map, length_range]
    intro i _ inside
    obtain ⟨low, fits, here⟩ := strings i inside (count.symm ▸ inside)
    rw [getElem_map, getElem_range, pointer i (count.symm ▸ inside)]
    exact stringAt_stored (here.congr fun a above => same a (by omega)) (text _ (getElem_mem inside)) (by omega)
  case null =>
    have word := words (pointers.length + 1) (by simp)
    rw [← count, add_assoc, add_comm 4, ← mul_succ, word]
    simp
  case apart =>
    intro i inside
    rw [pointer i (count.symm ▸ inside)]
    exact below.trans (strings i inside (count.symm ▸ inside)).1

/-- On a stack below the end of memory the budget decides, and the program finds its arguments. -/
theorem buildArgvStack_spec (aligned : ustk % 16 = 0) (below : ustk + elfUserStackSize < addressSpan)
    (few : argv.length ≤ elfArgvMax) (text : ∀ string ∈ argv, 0 ∉ string) (mem : Nat → BitVec 8) :
    ((buildArgvStack ustk argv).esp.isSome ↔ argvBytes argv ≤ elfArgvBytesMax) ∧
      ∀ esp, (buildArgvStack ustk argv).esp = some esp → Entry (after (buildArgvStack ustk argv).stores mem) esp argv := by
  have start : (ustk + elfUserStackSize) % addressSpan / 16 * 16 = ustk + elfUserStackSize := by
    simp only [elfUserStackSize, addressSpan] at below ⊢
    omega
  have made : (placeStrings ustk argv.reverse (ustk + elfUserStackSize) 0 [] []).2.isSome ↔ _ :=
    placeStrings_isSome argv.reverse (by simp only [elfArgvBytesMax, elfUserStackSize]; omega) (zero_le _)
  have reversed : argvBytes argv.reverse = argvBytes argv := by simp [argvBytes, sum_reverse]
  rw [zero_add, reversed] at made
  unfold buildArgvStack
  rw [if_neg few.not_gt, start]
  rcases placed : placeStrings ustk argv.reverse (ustk + elfUserStackSize) 0 [] [] with ⟨stores, _ | ⟨p, pointers⟩⟩
  · rw [placed] at made
    exact ⟨made, nofun⟩
  rw [placed] at made
  have budget := made.mp rfl
  have tiled := placeStrings_tiled argv.reverse placed (show Tiled (after [] mem) _ _ [] [] from rfl)
  rw [reverse_reverse, append_nil] at tiled
  have size := tiled.spec.1
  simp only [elfArgvBytesMax, elfUserStackSize, elfArgvMax] at budget size few
  have fits : ¬ p / 4 * 4 < ustk + (argv.length + 2) * 4 := by omega
  simp only [if_neg fits]
  refine ⟨iff_of_true rfl budget, ?_⟩
  rintro _ ⟨⟩
  rw [after_append]
  exact tiled.entry below few text budget (by omega) (by omega)

/-- `elf_build_argv_stack` does what it should on every stack but the last one of the address space. -/
theorem argvStack_right_iff (aligned : ustk % 16 = 0) (region : ustk + elfUserStackSize ≤ addressSpan) :
    (∀ argv mem, argv.length ≤ elfArgvMax → (∀ string ∈ argv, 0 ∉ string) →
      (∀ s ∈ (buildArgvStack ustk argv).stores, ustk ≤ s.1 ∧ s.1 < ustk + elfUserStackSize) ∧
      ((buildArgvStack ustk argv).esp.isSome ↔ argvBytes argv ≤ elfArgvBytesMax) ∧
      ∀ esp, (buildArgvStack ustk argv).esp = some esp → Entry (after (buildArgvStack ustk argv).stores mem) esp argv) ↔
    ustk + elfUserStackSize < addressSpan := by
  constructor
  · intro right
    apply lt_of_le_of_ne region
    intro last
    have empty := (right [] (fun _ => 0) (zero_le _) nofun).2.1.mpr (zero_le _)
    have none : (buildArgvStack ustk []).esp = none := by
      simp [buildArgvStack, last, placeStrings]
    rw [none] at empty
    cases empty
  · intro below argv mem few text
    exact ⟨buildArgvStack_range ustk argv, buildArgvStack_spec aligned below few text mem⟩

/-- The arguments of `sh -c` on the stack of a program. -/
theorem argvStack_right_shell : ∃ esp, (buildArgvStack elfUserStackBase [[115, 104], [45, 99]]).esp = some esp ∧
    decodeArgv (after (buildArgvStack elfUserStackBase [[115, 104], [45, 99]]).stores fun _ => 0) esp =
      [[115, 104], [45, 99]] := by
  have right := (argvStack_right_iff (by decide : elfUserStackBase % 16 = 0) (by decide)).mpr (by decide)
    [[115, 104], [45, 99]] (fun _ => 0) (by decide) (by decide)
  obtain ⟨esp, given⟩ := Option.isSome_iff_exists.mp (right.2.1.mpr (by decide))
  exact ⟨esp, given, (right.2.2 esp given).decoded⟩

/-- The end of the last stack wraps to 0. -/
theorem last_stack_refused : (buildArgvStack 0xFFFFE000 []).esp = none ∧ argvBytes [] ≤ elfArgvBytesMax := by decide

end DeanOS.Vm.Elf
