-- SUMMARY: Blocking reads and polls of the device: nobody sleeps while a request waits, and the calls come to rest.
import Kgpu.Kernel.Queue
import Kgpu.Library.WaitQueue
import Mathlib.Algebra.Group.Action.Defs

/-!
# Blocking calls

`kgpu_read` waits on `reqq` while `reqs` is empty, and `kgpu_poll` puts its caller on the
same queue. Both tests of `reqs` are made under `reqlock` by one of them and without it by
the other wait, so the calls are cut here at every statement that takes or releases the
lock or that looks at `reqs` or the queue.

The two calls that submit a request run the same four statements under the lock. The loop
of the `poll` system call around `kgpu_poll` goes back to it when the caller is woken.
-/

namespace Kgpu

open Library

variable {T : Type}

/-- Where a thread stands in a call that uses `reqlock`. -/
inductive BlockPc where
  | idle
  /-- `kgpu_call_async` or `kgpu_call_sync` at `spin_lock`, with the item to append. -/
  | callLock (item : RequestItem)
  | callAdd (item : RequestItem)
  | callWake
  | callUnlock
  /-- `kgpu_read` at `spin_lock`, with `O_NONBLOCK` and the count. -/
  | readLock (nonblock : Bool) (c : UL)
  /-- At the test of the loop. -/
  | readTest (nonblock : Bool) (c : UL)
  /-- The list was empty. -/
  | readUnlock (nonblock : Bool) (c : UL)
  /-- In `wait_event_interruptible`. -/
  | readWait (p : WaitPhase) (c : UL)
  /-- Past the loop. -/
  | readTake (c : UL)
  | readRelease (item : RequestItem) (c : UL)
  /-- The lock is released and the item is in hand. -/
  | readRetire (item : RequestItem) (c : UL)
  /-- `kgpu_poll` at `spin_lock`, with whether its caller was woken if it is on the queue. -/
  | pollLock (entry : Option Bool)
  | pollTest (entry : Option Bool)
  /-- With whether the caller was woken, and whether the mask has `POLLIN`. -/
  | pollUnlock (woken ready : Bool)
  /-- The system call sleeps until it is woken. -/
  | pollSleep (woken : Bool)

namespace BlockPc

/-- The thread has `reqlock`. -/
def holding : BlockPc → Bool
  | callAdd _ | callWake | callUnlock | readTest .. | readUnlock .. | readTake _ | readRelease ..
  | pollTest _ | pollUnlock .. => true
  | _ => false

/-- The thread sleeps and has not been woken. -/
def sleeps : BlockPc → Bool
  | readWait p _ => p = .asleep false
  | pollSleep woken => !woken
  | _ => false

/-- The thread has seen `reqs` empty and has the lock since. -/
def foundEmpty : BlockPc → Bool
  | readUnlock .. => true
  | pollUnlock _ ready => !ready
  | _ => false

/-- `wake_up_interruptible(&kgpudev.reqq)` for a thread that may be on the queue. -/
def wake : BlockPc → BlockPc
  | readWait p c => readWait p.wake c
  | pollLock (some _) => pollLock (some true)
  | pollTest (some _) => pollTest (some true)
  | pollUnlock _ ready => pollUnlock true ready
  | pollSleep _ => pollSleep true
  | pc => pc

/-- The statements a thread makes until it is out of its call or sleeps, as long as `reqs`
    stays empty or does not become so. -/
def rank (more : Bool) : BlockPc → Nat
  | idle => 0
  | callLock _ => 4
  | callAdd _ => 3
  | callWake => 2
  | callUnlock => 1
  | readLock .. => if more then 5 else 6
  | readTest .. => if more then 4 else 5
  | readUnlock .. => if more then 7 else 4
  | readWait p _ => p.rank more + if more then 5 else 0
  | readTake _ => 3
  | readRelease .. => 2
  | readRetire .. => 1
  | pollLock entry => if !more && entry = some true then 7 else 3
  | pollTest entry => if !more && entry = some true then 6 else 2
  | pollUnlock woken ready => if woken && !ready then 5 else 1
  | pollSleep woken => if woken then 4 else 0

/-- What a thread still does to `reqs` and the queue: the append, the wake-up and the
    request that is there afterwards. -/
def weight : BlockPc → Nat
  | callLock _ | callAdd _ => 3
  | callWake => 1
  | _ => 0

end BlockPc

/-- The kernel, the holder of `reqlock` and the threads, with a record of the run: the
    items in the order they were appended and taken, and what the calls returned. -/
structure Blocking (T : Type) where
  kernel : Kernel
  lock : Option T
  pc : T → BlockPc
  appended : List RequestItem
  taken : List RequestItem
  returned : List (T × Int)

inductive BlockStep (T : Type) where
  /-- The locked section of `kgpu_call_async` or `kgpu_call_sync`. -/
  | call (t : T) (item : RequestItem)
  | read (t : T) (nonblock : Bool) (c : UL)
  | poll (t : T)
  /-- The next statement of a thread, with whether it has a signal pending. -/
  | next (t : T) (signal : Bool)
  /-- The timeout of a `poll` is over. -/
  | timeout (t : T)

namespace Blocking

def eAGAIN : Int := -11
def eRESTARTSYS : Int := -512
def eINTR : Int := -4

variable [DecidableEq T]

def goto (s : Blocking T) (t : T) (pc : BlockPc) : Blocking T :=
  { s with pc := Function.update s.pc t pc }

@[simp] theorem goto_kernel (s : Blocking T) (t : T) (pc : BlockPc) :
    (s.goto t pc).kernel = s.kernel := rfl

@[simp] theorem goto_appended (s : Blocking T) (t : T) (pc : BlockPc) :
    (s.goto t pc).appended = s.appended := rfl

@[simp] theorem goto_taken (s : Blocking T) (t : T) (pc : BlockPc) :
    (s.goto t pc).taken = s.taken := rfl

def ret (s : Blocking T) (t : T) (code : Int) : Blocking T :=
  { s.goto t .idle with returned := s.returned ++ [(t, code)] }

/-- `spin_lock(&kgpudev.reqlock)`: the thread spins while another one has it. -/
def acquire (s : Blocking T) (t : T) (pc : BlockPc) : Option (Blocking T) :=
  match s.lock with
  | none => some { s.goto t pc with lock := some t }
  | some _ => none

/-- `spin_unlock(&kgpudev.reqlock)`. -/
def release (s : Blocking T) : Blocking T := { s with lock := none }

/-- `!list_empty(&kgpudev.reqs)`. -/
def more (s : Blocking T) : Bool := !s.kernel.reqs.isEmpty

/-- The next statement of a thread. -/
def advance (s : Blocking T) (t : T) (signal : Bool) : Option (Blocking T) :=
  match s.pc t with
  | .idle => none
  | .callLock item => s.acquire t (.callAdd item)
  | .callAdd item =>
    some { s.goto t .callWake with
      kernel := { s.kernel with reqs := s.kernel.reqs ++ [item] }
      appended := s.appended ++ [item] }
  | .callWake =>
    some { s with pc := Function.update (fun u => (s.pc u).wake) t .callUnlock }
  | .callUnlock => some (s.release.ret t 0)
  | .readLock nonblock c => s.acquire t (.readTest nonblock c)
  | .readTest nonblock c =>
    some (s.goto t (if s.more then .readTake c else .readUnlock nonblock c))
  | .readUnlock nonblock c =>
    some (if nonblock then s.release.ret t eAGAIN else s.release.goto t (.readWait .first c))
  | .readWait p c =>
    match p.next s.more signal with
    | none => none
    | some (.go p) => some (s.goto t (.readWait p c))
    | some .fulfilled => some (s.goto t (.readLock false c))
    | some .interrupted => some (s.ret t eRESTARTSYS)
  | .readTake c =>
    match s.kernel.readTake with
    | some (item, _, k) =>
      some { s.goto t (.readRelease item c) with kernel := k, taken := s.taken ++ [item] }
    | none => none
  | .readRelease item c => some (s.release.goto t (.readRetire item c))
  | .readRetire item c =>
    some { s.ret t (s.kernel.readRetire c item).1 with kernel := (s.kernel.readRetire c item).2 }
  | .pollLock entry => s.acquire t (.pollTest entry)
  | .pollTest entry => some (s.goto t (.pollUnlock (entry.getD false) s.more))
  | .pollUnlock woken ready =>
    some (if ready then s.release.ret t 1 else s.release.goto t (.pollSleep woken))
  | .pollSleep woken =>
    if woken then some (s.goto t (.pollLock (some false)))
    else if signal then some (s.ret t eINTR) else none

def step (s : Blocking T) : BlockStep T → Option (Blocking T)
  | .call t item =>
    match s.pc t with
    | .idle => some (s.goto t (.callLock item))
    | _ => none
  | .read t nonblock c =>
    match s.pc t with
    | .idle => some (s.goto t (.readLock nonblock c))
    | _ => none
  | .poll t =>
    match s.pc t with
    | .idle => some (s.goto t (.pollLock none))
    | _ => none
  | .next t signal => s.advance t signal
  | .timeout t =>
    match s.pc t with
    | .pollSleep _ => some (s.ret t 0)
    | _ => none

def init (k : Kernel) : Blocking T where
  kernel := k
  lock := none
  pc := fun _ => .idle
  appended := k.reqs
  taken := []
  returned := []

/-- No call begins, no signal comes and no timeout ends. -/
def Quiet (_ : Blocking T) : BlockStep T → Prop
  | .next _ signal => signal = false
  | _ => False

/-! ## What a step does -/

/-- A step of a thread that leaves `reqs` and the wait queue alone: the thread goes from
    `pc` to `pc'` and takes or releases the lock or leaves it as it is. -/
structure Moved (s : Blocking T) (t : T) (pc' : BlockPc) (s' : Blocking T) : Prop where
  pc : s'.pc = Function.update s.pc t pc'
  reqs : s'.kernel.reqs = s.kernel.reqs
  appended : s'.appended = s.appended
  taken : s'.taken = s.taken
  lock : (s'.lock = s.lock ∧ pc'.holding = (s.pc t).holding) ∨
    (s.lock = none ∧ s'.lock = some t ∧ pc'.holding = true) ∨
    ((s.pc t).holding = true ∧ s'.lock = none ∧ pc'.holding = false)

/-- What a step can do; `quiet` stands for the next statement of a thread without a signal. -/
inductive StepCase (s : Blocking T) (quiet : Bool) (t : T) : Blocking T → Prop where
  /-- What the thread knows about `reqs` afterwards it has just seen, or knew before. -/
  | moved (pc' : BlockPc) {s' : Blocking T} (h : s.Moved t pc' s') (hwake : s.pc t ≠ .callWake)
      (htake : ∀ c, pc' = .readTake c → s.kernel.reqs ≠ [])
      (hempty : pc'.foundEmpty = true → s.kernel.reqs = [])
      (hsleep : pc'.sleeps = true → s.kernel.reqs = [] ∨ (s.pc t).foundEmpty = true)
      (hrank : quiet = true → pc'.rank s.more < (s.pc t).rank s.more ∧
        pc'.weight = (s.pc t).weight) : StepCase s quiet t s'
  | added {item : RequestItem} (hpc : s.pc t = .callAdd item) :
      StepCase s quiet t { s.goto t .callWake with
        kernel := { s.kernel with reqs := s.kernel.reqs ++ [item] }
        appended := s.appended ++ [item] }
  | woke (hpc : s.pc t = .callWake) :
      StepCase s quiet t { s with pc := Function.update (fun u => (s.pc u).wake) t .callUnlock }
  | took {c : UL} {item : RequestItem} {rest : List RequestItem} (hpc : s.pc t = .readTake c)
      (hreqs : s.kernel.reqs = item :: rest) :
      StepCase s quiet t { s.goto t (.readRelease item c) with
        kernel := { s.kernel with reqs := rest }
        taken := s.taken ++ [item] }

variable {s s' : Blocking T} {t : T}

theorem acquire_eq_some {pc : BlockPc} (h : s.acquire t pc = some s') :
    s.lock = none ∧ s' = { s.goto t pc with lock := some t } := by
  simp only [acquire] at h
  split at h <;> cases h
  next hlock => exact ⟨hlock, rfl⟩

/-- A thread that takes the lock. -/
theorem StepCase.acquired (pc : BlockPc) {quiet : Bool} (h : s.acquire t pc = some s')
    (hhold : pc.holding = true) (hwake : s.pc t ≠ .callWake) (htake : ∀ c, pc ≠ .readTake c)
    (hempty : pc.foundEmpty = false) (hsleep : pc.sleeps = false)
    (hrank : pc.rank s.more < (s.pc t).rank s.more ∧ pc.weight = (s.pc t).weight) :
    StepCase s quiet t s' := by
  obtain ⟨hlock, rfl⟩ := acquire_eq_some h
  refine .moved pc ⟨rfl, rfl, rfl, rfl, .inr (.inl ⟨hlock, rfl, hhold⟩)⟩ hwake
    (fun c hc => absurd hc (htake c)) (fun he => ?_) (fun he => ?_) fun _ => hrank
  · rw [hempty] at he
    cases he
  · rw [hsleep] at he
    cases he

/-- A thread without the lock that goes on, or out of its call. -/
theorem StepCase.went (pc : BlockPc) {quiet : Bool} (hpc : s'.pc = Function.update s.pc t pc)
    (hreqs : s'.kernel.reqs = s.kernel.reqs) (hrec : s'.appended = s.appended ∧ s'.taken = s.taken)
    (hlock : s'.lock = s.lock) (hhold : pc.holding = (s.pc t).holding)
    (hwake : s.pc t ≠ .callWake) (htake : ∀ c, pc ≠ .readTake c) (hempty : pc.foundEmpty = false)
    (hsleep : pc.sleeps = true → s.kernel.reqs = [])
    (hrank : quiet = true → pc.rank s.more < (s.pc t).rank s.more ∧
      pc.weight = (s.pc t).weight) : StepCase s quiet t s' := by
  refine .moved pc ⟨hpc, hreqs, hrec.1, hrec.2, .inl ⟨hlock, hhold⟩⟩ hwake
    (fun c hc => absurd hc (htake c)) (fun he => ?_) (fun he => .inl (hsleep he)) hrank
  rw [hempty] at he
  cases he

/-- A thread that releases the lock. -/
theorem StepCase.released (pc : BlockPc) {quiet : Bool} (hpc : s'.pc = Function.update s.pc t pc)
    (hreqs : s'.kernel.reqs = s.kernel.reqs) (hrec : s'.appended = s.appended ∧ s'.taken = s.taken)
    (hlock : s'.lock = none) (hold : (s.pc t).holding = true) (hhold : pc.holding = false)
    (hwake : s.pc t ≠ .callWake) (htake : ∀ c, pc ≠ .readTake c) (hempty : pc.foundEmpty = false)
    (hsleep : pc.sleeps = true → (s.pc t).foundEmpty = true)
    (hrank : pc.rank s.more < (s.pc t).rank s.more ∧ pc.weight = (s.pc t).weight) :
    StepCase s quiet t s' := by
  refine .moved pc ⟨hpc, hreqs, hrec.1, hrec.2, .inr (.inr ⟨hold, hlock, hhold⟩)⟩ hwake
    (fun c hc => absurd hc (htake c)) (fun he => ?_) (fun he => .inr (hsleep he)) fun _ => hrank
  rw [hempty] at he
  cases he

omit [DecidableEq T] in
theorem more_eq_true : s.more = true ↔ s.kernel.reqs ≠ [] := by
  simp [more]

omit [DecidableEq T] in
theorem more_eq_false : s.more = false ↔ s.kernel.reqs = [] := by
  simp [more]

theorem advance_case {signal : Bool} (h : s.advance t signal = some s') :
    StepCase s (!signal) t s' := by
  unfold advance at h
  cases hpc : s.pc t with
  | idle => simp [hpc] at h
  | callLock item =>
    simp only [hpc] at h
    exact .acquired _ h rfl (by simp [hpc]) (by simp) rfl rfl (by simp [hpc, BlockPc.rank, BlockPc.weight])
  | callAdd item =>
    simp only [hpc] at h
    cases h
    exact .added hpc
  | callWake =>
    simp only [hpc] at h
    cases h
    exact .woke hpc
  | callUnlock =>
    simp only [hpc] at h
    cases h
    exact .released .idle rfl rfl ⟨rfl, rfl⟩ rfl (by simp [hpc, BlockPc.holding]) rfl
      (by simp [hpc]) (by simp) rfl (by simp [BlockPc.sleeps])
      (by simp [hpc, BlockPc.rank, BlockPc.weight])
  | readLock nonblock c =>
    simp only [hpc] at h
    refine .acquired _ h rfl (by simp [hpc]) (by simp) rfl rfl ?_
    cases s.more <;> simp [hpc, BlockPc.rank, BlockPc.weight]
  | readTest nonblock c =>
    simp only [hpc] at h
    cases h
    cases hmore : s.more with
    | true =>
      refine .moved (.readTake c) ⟨rfl, rfl, rfl, rfl, .inl ⟨rfl, by simp [hpc, BlockPc.holding]⟩⟩
        (by simp [hpc]) (fun _ _ => more_eq_true.mp hmore) (by simp [BlockPc.foundEmpty])
        (by simp [BlockPc.sleeps]) fun _ => ?_
      simp [hpc, hmore, BlockPc.rank, BlockPc.weight]
    | false =>
      refine .moved (.readUnlock nonblock c)
        ⟨rfl, rfl, rfl, rfl, .inl ⟨rfl, by simp [hpc, BlockPc.holding]⟩⟩
        (by simp [hpc]) (by simp) (fun _ => more_eq_false.mp hmore)
        (by simp [BlockPc.sleeps]) fun _ => ?_
      simp [hpc, hmore, BlockPc.rank, BlockPc.weight]
  | readUnlock nonblock c =>
    simp only [hpc] at h
    cases h
    cases nonblock with
    | true =>
      refine .released .idle rfl rfl ⟨rfl, rfl⟩ rfl (by simp [hpc, BlockPc.holding]) rfl
        (by simp [hpc]) (by simp) rfl (by simp [BlockPc.sleeps]) ?_
      cases s.more <;> simp [hpc, BlockPc.rank, BlockPc.weight]
    | false =>
      refine .released (.readWait .first c) rfl rfl ⟨rfl, rfl⟩ rfl
        (by simp [hpc, BlockPc.holding]) rfl (by simp [hpc]) (by simp) rfl (by simp [BlockPc.sleeps]) ?_
      cases s.more <;> simp [hpc, BlockPc.rank, BlockPc.weight, WaitPhase.rank]
  | readWait p c =>
    simp only [hpc] at h
    split at h
    next => cases h
    next p' hnext =>
      cases h
      refine .went (.readWait p' c) rfl rfl ⟨rfl, rfl⟩ rfl (by simp [hpc, BlockPc.holding])
        (by simp [hpc]) (by simp) rfl (fun hs => ?_) fun hq => ?_
      · have hp : p' = .asleep false := by simpa [BlockPc.sleeps] using hs
        rw [hp] at hnext
        exact more_eq_false.mp (WaitPhase.cond_of_go_asleep hnext)
      · rw [Bool.not_eq_true'] at hq
        rw [hq] at hnext
        have hlt := WaitPhase.rank_lt hnext
        simpa [hpc, BlockPc.rank, BlockPc.weight] using hlt
    next hnext =>
      cases h
      refine .went (.readLock false c) rfl rfl ⟨rfl, rfl⟩ rfl (by simp [hpc, BlockPc.holding])
        (by simp [hpc]) (by simp) rfl (by simp [BlockPc.sleeps]) fun _ => ?_
      have hpos := WaitPhase.rank_pos_of_fulfilled hnext
      have hmore := WaitPhase.cond_of_fulfilled hnext
      simp only [hpc, hmore, BlockPc.rank, BlockPc.weight, if_true] at hpos ⊢
      exact ⟨by omega, trivial⟩
    next hnext =>
      cases h
      refine .went .idle rfl rfl ⟨rfl, rfl⟩ rfl (by simp [hpc, BlockPc.holding])
        (by simp [hpc]) (by simp) rfl (by simp [BlockPc.sleeps]) fun hq => ?_
      rw [Bool.not_eq_true'] at hq
      rw [hq] at hnext
      exact absurd hnext WaitPhase.next_ne_interrupted
  | readTake c =>
    simp only [hpc] at h
    split at h <;> cases h
    next item kureq k htake =>
      obtain ⟨rest, hreqs, -, rfl⟩ := Kernel.readTake_eq_some htake
      exact .took hpc hreqs
  | readRelease item c =>
    simp only [hpc] at h
    cases h
    exact .released (.readRetire item c) rfl rfl ⟨rfl, rfl⟩ rfl
      (by simp [hpc, BlockPc.holding]) rfl (by simp [hpc]) (by simp) rfl (by simp [BlockPc.sleeps])
      (by simp [hpc, BlockPc.rank, BlockPc.weight])
  | readRetire item c =>
    simp only [hpc] at h
    cases h
    exact .went .idle rfl rfl ⟨rfl, rfl⟩ rfl (by simp [hpc, BlockPc.holding])
      (by simp [hpc]) (by simp) rfl (by simp [BlockPc.sleeps])
      fun _ => by simp [hpc, BlockPc.rank, BlockPc.weight]
  | pollLock entry =>
    simp only [hpc] at h
    refine .acquired _ h rfl (by simp [hpc]) (by simp) rfl rfl ?_
    simp only [hpc, BlockPc.rank, BlockPc.weight, and_true]
    split <;> decide
  | pollTest entry =>
    simp only [hpc] at h
    cases h
    refine .moved (.pollUnlock (entry.getD false) s.more)
      ⟨rfl, rfl, rfl, rfl, .inl ⟨rfl, by simp [hpc, BlockPc.holding]⟩⟩ (by simp [hpc]) (by simp)
      (fun he => ?_) (by simp [BlockPc.sleeps]) fun _ => ?_
    · exact more_eq_false.mp (by simpa [BlockPc.foundEmpty] using he)
    · rcases entry with _ | _ | _ <;> cases hm : s.more <;>
        simp [hpc, BlockPc.rank, BlockPc.weight]
  | pollUnlock woken ready =>
    simp only [hpc] at h
    cases h
    cases ready with
    | true =>
      exact .released .idle rfl rfl ⟨rfl, rfl⟩ rfl (by simp [hpc, BlockPc.holding]) rfl
        (by simp [hpc]) (by simp) rfl (by simp [BlockPc.sleeps])
        (by simp [hpc, BlockPc.rank, BlockPc.weight])
    | false =>
      refine .released (.pollSleep woken) rfl rfl ⟨rfl, rfl⟩ rfl
        (by simp [hpc, BlockPc.holding]) rfl (by simp [hpc]) (by simp) rfl
        (by simp [hpc, BlockPc.foundEmpty]) ?_
      cases woken <;> simp [hpc, BlockPc.rank, BlockPc.weight]
  | pollSleep woken =>
    simp only [hpc] at h
    split at h
    next hw =>
      cases h
      exact .went (.pollLock (some false)) rfl rfl ⟨rfl, rfl⟩ rfl
        (by simp [hpc, BlockPc.holding]) (by simp [hpc]) (by simp) rfl (by simp [BlockPc.sleeps])
        fun _ => by simp [hpc, hw, BlockPc.rank, BlockPc.weight]
    next hw =>
      split at h <;> cases h
      next hsig =>
        refine .went .idle rfl rfl ⟨rfl, rfl⟩ rfl (by simp [hpc, BlockPc.holding])
          (by simp [hpc]) (by simp) rfl (by simp [BlockPc.sleeps]) fun hq => ?_
        simp [hsig] at hq

theorem step_case {l : BlockStep T} (h : s.step l = some s') : ∃ quiet t, StepCase s quiet t s' := by
  cases l with
  | next t signal => exact ⟨_, t, advance_case h⟩
  | call t item =>
    simp only [step] at h
    split at h <;> cases h
    next hpc =>
      exact ⟨false, t, .went (.callLock item) rfl rfl ⟨rfl, rfl⟩ rfl
        (by simp [hpc, BlockPc.holding]) (by simp [hpc]) (by simp) rfl (by simp [BlockPc.sleeps])
        (by simp)⟩
  | read t nonblock c =>
    simp only [step] at h
    split at h <;> cases h
    next hpc =>
      exact ⟨false, t, .went (.readLock nonblock c) rfl rfl ⟨rfl, rfl⟩ rfl
        (by simp [hpc, BlockPc.holding]) (by simp [hpc]) (by simp) rfl (by simp [BlockPc.sleeps])
        (by simp)⟩
  | poll t =>
    simp only [step] at h
    split at h <;> cases h
    next hpc =>
      exact ⟨false, t, .went (.pollLock none) rfl rfl ⟨rfl, rfl⟩ rfl
        (by simp [hpc, BlockPc.holding]) (by simp [hpc]) (by simp) rfl (by simp [BlockPc.sleeps])
        (by simp)⟩
  | timeout t =>
    simp only [step] at h
    split at h <;> cases h
    next hpc =>
      exact ⟨false, t, .went .idle rfl rfl ⟨rfl, rfl⟩ rfl (by simp [hpc, BlockPc.holding])
        (by simp [hpc]) (by simp) rfl (by simp [BlockPc.sleeps]) (by simp)⟩

/-! ## No sleeper is forgotten -/

end Blocking

namespace BlockPc

variable {pc : BlockPc}

@[simp] theorem wake_holding : pc.wake.holding = pc.holding := by
  cases pc with
  | pollLock entry | pollTest entry => cases entry <;> rfl
  | _ => rfl

@[simp] theorem wake_foundEmpty : pc.wake.foundEmpty = pc.foundEmpty := by
  cases pc with
  | pollLock entry | pollTest entry => cases entry <;> rfl
  | _ => rfl

@[simp] theorem wake_weight : pc.wake.weight = pc.weight := by
  cases pc with
  | pollLock entry | pollTest entry => cases entry <;> rfl
  | _ => rfl

@[simp] theorem wake_sleeps : pc.wake.sleeps = false := by
  cases pc with
  | pollLock entry | pollTest entry => cases entry <;> rfl
  | readWait p c => simpa [wake, sleeps] using WaitPhase.wake_ne_asleep
  | _ => rfl

theorem of_wake_readTake {c : UL} (h : pc.wake = .readTake c) : pc = .readTake c := by
  cases pc with
  | pollLock entry | pollTest entry => cases entry <;> cases h
  | readTake => exact h
  | _ => cases h

theorem holding_of_foundEmpty (h : pc.foundEmpty = true) : pc.holding = true := by
  cases pc with
  | readUnlock | pollUnlock => rfl
  | _ => cases h

theorem rank_le (more : Bool) : pc.rank more ≤ 9 := by
  cases pc with
  | readWait p c =>
    have hle : p.rank more ≤ 4 := WaitPhase.rank_le
    simp only [rank]
    split <;> omega
  | readLock | readTest | readUnlock => cases more <;> simp [rank]
  | pollLock entry | pollTest entry | pollUnlock | pollSleep =>
    simp only [rank]
    split <;> decide
  | _ => simp [rank]

end BlockPc

namespace Blocking

variable [DecidableEq T] {s s' : Blocking T} {t : T}

/-- What every step keeps: `reqlock` has one holder, what a holder has seen of `reqs` is
    still so, a thread that sleeps while a request is there is about to be woken, and
    the requests are taken in the order they were appended. -/
structure Orderly (s : Blocking T) : Prop where
  holder : ∀ t, (s.pc t).holding = true ↔ s.lock = some t
  take : ∀ t c, s.pc t = .readTake c → s.kernel.reqs ≠ []
  empty : ∀ t, (s.pc t).foundEmpty = true → s.kernel.reqs = []
  told : ∀ t, (s.pc t).sleeps = true → s.kernel.reqs ≠ [] → ∃ u, s.pc u = .callWake
  order : s.appended = s.taken ++ s.kernel.reqs

namespace Orderly

omit [DecidableEq T] in
/-- Two threads with the lock are one. -/
theorem one_holder (h : s.Orderly) {u : T} (ht : (s.pc t).holding = true)
    (hu : (s.pc u).holding = true) : t = u := by
  have hlock := ((h.holder t).mp ht).symm.trans ((h.holder u).mp hu)
  exact Option.some.inj hlock

theorem moved (h : s.Orderly) {pc' : BlockPc} (hm : s.Moved t pc' s')
    (hwake : s.pc t ≠ .callWake) (htake : ∀ c, pc' = .readTake c → s.kernel.reqs ≠ [])
    (hempty : pc'.foundEmpty = true → s.kernel.reqs = [])
    (hsleep : pc'.sleeps = true → s.kernel.reqs = [] ∨ (s.pc t).foundEmpty = true) :
    s'.Orderly := by
  have hself : s'.pc t = pc' := by rw [hm.pc, Function.update_self]
  have hother : ∀ u, u ≠ t → s'.pc u = s.pc u := fun u hu => by
    rw [hm.pc, Function.update_of_ne hu]
  refine ⟨fun u => ?_, fun u c hu => ?_, fun u hu => ?_, fun u hu hne => ?_, ?_⟩
  · by_cases hut : u = t
    · subst hut
      rw [hself]
      rcases hm.lock with ⟨hl, hh⟩ | ⟨-, hl, hh⟩ | ⟨-, hl, hh⟩
      · rw [hl, hh]
        exact h.holder u
      · simp [hl, hh]
      · simp [hl, hh]
    · rw [hother u hut, h.holder u]
      rcases hm.lock with ⟨hl, -⟩ | ⟨hl, hl', -⟩ | ⟨hold, hl', -⟩
      · rw [hl]
      · simp [hl, hl', Ne.symm hut]
      · simp [(h.holder t).mp hold, hl', Ne.symm hut]
  · rw [hm.reqs]
    by_cases hut : u = t
    · subst hut
      exact htake c (hself.symm.trans hu)
    · exact h.take u c (hother u hut ▸ hu)
  · rw [hm.reqs]
    by_cases hut : u = t
    · subst hut
      exact hempty (hself ▸ hu)
    · exact h.empty u (hother u hut ▸ hu)
  · rw [hm.reqs] at hne
    have hsome : ∃ v, s.pc v = .callWake := by
      by_cases hut : u = t
      · subst hut
        rw [hself] at hu
        rcases hsleep hu with he | he
        · exact absurd he hne
        · exact absurd (h.empty u he) hne
      · exact h.told u (hother u hut ▸ hu) hne
    obtain ⟨v, hv⟩ := hsome
    have hvt : v ≠ t := fun e => hwake (e ▸ hv)
    exact ⟨v, (hother v hvt).trans hv⟩
  · rw [hm.appended, hm.taken, hm.reqs]
    exact h.order

/-- The append: whoever sleeps now has the caller's wake-up to come. -/
theorem added (h : s.Orderly) {item : RequestItem} (hpc : s.pc t = .callAdd item) :
    Orderly { s.goto t .callWake with
      kernel := { s.kernel with reqs := s.kernel.reqs ++ [item] }
      appended := s.appended ++ [item] } := by
  have hold : (s.pc t).holding = true := by
    rw [hpc]
    rfl
  refine ⟨fun u => ?_, fun u c _ => ?_, fun u hu => ?_, fun _ _ _ => ⟨t, ?_⟩, ?_⟩
  · by_cases hut : u = t
    · subst hut
      simpa [goto, BlockPc.holding] using (h.holder u).mp hold
    · simpa [goto, hut] using h.holder u
  · simp
  · by_cases hut : u = t
    · subst hut
      simp [goto, BlockPc.foundEmpty] at hu
    · simp only [goto, Function.update_of_ne hut] at hu
      exact absurd (h.one_holder (BlockPc.holding_of_foundEmpty hu) hold) hut
  · simp [goto]
  · simp [h.order]

/-- The wake-up: nobody sleeps any more. -/
theorem woke (h : s.Orderly) (hpc : s.pc t = .callWake) :
    Orderly { s with pc := Function.update (fun u => (s.pc u).wake) t .callUnlock } := by
  have hold : (s.pc t).holding = true := by
    rw [hpc]
    rfl
  refine ⟨fun u => ?_, fun u c hu => ?_, fun u hu => ?_, fun u hu _ => ?_, h.order⟩
  · by_cases hut : u = t
    · subst hut
      simpa [BlockPc.holding] using (h.holder u).mp hold
    · simpa [hut] using h.holder u
  · by_cases hut : u = t
    · subst hut
      simp at hu
    · simp only [Function.update_of_ne hut] at hu
      exact h.take u c (BlockPc.of_wake_readTake hu)
  · by_cases hut : u = t
    · subst hut
      simp [BlockPc.foundEmpty] at hu
    · simp only [Function.update_of_ne hut, BlockPc.wake_foundEmpty] at hu
      exact h.empty u hu
  · by_cases hut : u = t
    · subst hut
      simp [BlockPc.sleeps] at hu
    · simp [Function.update_of_ne hut] at hu

theorem took (h : s.Orderly) {c : UL} {item : RequestItem} {rest : List RequestItem}
    (hpc : s.pc t = .readTake c) (hreqs : s.kernel.reqs = item :: rest) :
    Orderly { s.goto t (.readRelease item c) with
      kernel := { s.kernel with reqs := rest }
      taken := s.taken ++ [item] } := by
  have hold : (s.pc t).holding = true := by
    rw [hpc]
    rfl
  refine ⟨fun u => ?_, fun u c' hu => ?_, fun u hu => ?_, fun u hu _ => ?_, ?_⟩
  · by_cases hut : u = t
    · subst hut
      simpa [goto, BlockPc.holding] using (h.holder u).mp hold
    · simpa [goto, hut] using h.holder u
  · by_cases hut : u = t
    · subst hut
      simp [goto] at hu
    · simp only [goto, Function.update_of_ne hut] at hu
      exact absurd (h.one_holder (by rw [hu]; rfl) hold) hut
  · by_cases hut : u = t
    · subst hut
      simp [goto, BlockPc.foundEmpty] at hu
    · simp only [goto, Function.update_of_ne hut] at hu
      exact absurd (h.one_holder (BlockPc.holding_of_foundEmpty hu) hold) hut
  · -- A caller at its wake-up would have the lock, which this thread has.
    by_cases hut : u = t
    · subst hut
      simp [goto, BlockPc.sleeps] at hu
    · simp only [goto, Function.update_of_ne hut] at hu
      obtain ⟨v, hv⟩ := h.told u hu (by simp [hreqs])
      have hvt := h.one_holder (by rw [hv]; rfl) hold
      subst hvt
      rw [hpc] at hv
      cases hv
  · simp [h.order, hreqs]

theorem of_case (h : s.Orderly) {quiet : Bool} (hs : StepCase s quiet t s') : s'.Orderly := by
  cases hs with
  | moved pc' hm hwake htake hempty hsleep => exact h.moved hm hwake htake hempty hsleep
  | added hpc => exact h.added hpc
  | woke hpc => exact h.woke hpc
  | took hpc hreqs => exact h.took hpc hreqs

end Orderly

theorem orderly_of_run {ok : Blocking T → BlockStep T → Prop} {k : Kernel}
    {ls : List (BlockStep T)} (hrun : Run step ok (init k) ls s) : s.Orderly := by
  refine hrun.invariant (I := Orderly) ?_ fun s l s' h _ hs => ?_
  · constructor <;> simp [init, BlockPc.holding, BlockPc.foundEmpty, BlockPc.sleeps]
  · obtain ⟨quiet, t, hcase⟩ := step_case hs
    exact h.of_case hcase

/-! ## Coming to rest -/

/-- The appends, wake-ups and requests that the threads `ts` still have ahead of them. -/
def ahead (s : Blocking T) (ts : Finset T) : Nat :=
  ∑ t ∈ ts, (s.pc t).weight + s.kernel.reqs.length

/-- Each of these may set every thread going again. -/
def potential (ts : Finset T) (s : Blocking T) : Nat :=
  ∑ t ∈ ts, (s.pc t).rank s.more + (9 * ts.card + 1) * s.ahead ts

omit [DecidableEq T] in
theorem sum_rank_le (s : Blocking T) (ts : Finset T) :
    ∑ t ∈ ts, (s.pc t).rank s.more ≤ 9 * ts.card := by
  have hle := Finset.sum_le_card_nsmul ts (fun t => (s.pc t).rank s.more) 9
    fun t _ => BlockPc.rank_le s.more
  rwa [smul_eq_mul, Nat.mul_comm] at hle

omit [DecidableEq T] in
/-- A step that takes one off what is ahead. -/
theorem potential_of_ahead {ts : Finset T} (h : s'.ahead ts < s.ahead ts) :
    potential ts s' < potential ts s := by
  have hrank := sum_rank_le s' ts
  have hmul : (9 * ts.card + 1) * (s'.ahead ts + 1) ≤ (9 * ts.card + 1) * s.ahead ts :=
    Nat.mul_le_mul_left _ h
  rw [Nat.mul_add, Nat.mul_one] at hmul
  unfold potential
  omega

/-- A step of one of the threads that changes its weight and the number of requests. -/
theorem ahead_update {ts : Finset T} (ht : t ∈ ts)
    (hother : ∀ u ∈ ts, u ≠ t → (s'.pc u).weight = (s.pc u).weight)
    (hlt : (s'.pc t).weight + s'.kernel.reqs.length < (s.pc t).weight + s.kernel.reqs.length) :
    s'.ahead ts < s.ahead ts := by
  have hsum := sum_update ht hother
  unfold ahead
  omega

theorem potential_lt {ts : Finset T} (ht : t ∈ ts) (hs : StepCase s true t s') :
    potential ts s' < potential ts s := by
  cases hs with
  | moved pc' hm hwake htake hempty hsleep hrank =>
    obtain ⟨hlt, hweight⟩ := hrank rfl
    have hself : s'.pc t = pc' := by rw [hm.pc, Function.update_self]
    have hother : ∀ u, u ≠ t → s'.pc u = s.pc u := fun u hu => by
      rw [hm.pc, Function.update_of_ne hu]
    have hmore : s'.more = s.more := by rw [more, more, hm.reqs]
    have hahead : s'.ahead ts = s.ahead ts := by
      rw [ahead, ahead, hm.reqs]
      refine congrArg (· + _) (Finset.sum_congr rfl fun u _ => ?_)
      by_cases hut : u = t
      · rw [hut, hself, hweight]
      · rw [hother u hut]
    have hsum : ∑ u ∈ ts, (s'.pc u).rank s.more < ∑ u ∈ ts, (s.pc u).rank s.more := by
      refine Finset.sum_lt_sum (fun u _ => ?_) ⟨t, ht, by rwa [hself]⟩
      by_cases hut : u = t
      · rw [hut, hself]
        exact Nat.le_of_lt hlt
      · rw [hother u hut]
    unfold potential
    rw [hmore, hahead]
    omega
  | added hpc =>
    refine potential_of_ahead (ahead_update ht (fun u _ hu => ?_) ?_)
    · simp [goto, hu]
    · simp [goto, hpc, BlockPc.weight]
      omega
  | woke hpc =>
    refine potential_of_ahead (ahead_update ht (fun u _ hu => ?_) ?_)
    · simp [hu]
    · simp [hpc, BlockPc.weight]
  | took hpc hreqs =>
    refine potential_of_ahead (ahead_update ht (fun u _ hu => ?_) ?_)
    · simp [goto, hu]
    · simp [goto, hpc, hreqs, BlockPc.weight]

/-- All threads but these are outside of the calls. -/
def Within (ts : Finset T) (s : Blocking T) : Prop := ∀ t ∉ ts, s.pc t = .idle

theorem Within.of_case {ts : Finset T} (h : s.Within ts) {quiet : Bool} (ht : t ∈ ts)
    (hs : StepCase s quiet t s') : s'.Within ts := by
  intro u hu
  have hut : u ≠ t := fun e => hu (e ▸ ht)
  have hidle := h u hu
  cases hs with
  | moved pc' hm => rw [hm.pc, Function.update_of_ne hut, hidle]
  | added | took => simp [goto, hut, hidle]
  | woke => simp [hut, hidle, BlockPc.wake]

theorem within_of_run {ok : Blocking T → BlockStep T → Prop} {k : Kernel}
    {ls : List (BlockStep T)} (hrun : Run step ok (init k) ls s) : ∃ ts, s.Within ts := by
  refine hrun.invariant (I := fun s => ∃ ts, s.Within ts) ⟨∅, fun t _ => rfl⟩ ?_
  rintro s l s' ⟨ts, h⟩ _ hs
  obtain ⟨quiet, t, hcase⟩ := step_case hs
  have hin : s.Within (insert t ts) := fun u hu => h u fun hm => hu (Finset.mem_insert_of_mem hm)
  exact ⟨insert t ts, hin.of_case (Finset.mem_insert_self t ts) hcase⟩

/-- The label of a quiet step is the next statement of a thread inside a call. -/
theorem quiet_case {ts : Finset T} (h : s.Within ts) {l : BlockStep T} (hok : s.Quiet l)
    (hs : s.step l = some s') : ∃ t ∈ ts, StepCase s true t s' := by
  cases l with
  | next t signal =>
    cases hok
    refine ⟨t, ?_, advance_case hs⟩
    by_contra hnot
    simp [step, advance, h t hnot] at hs
  | call | read | poll | timeout => cases hok

theorem quiet_bounded {ts : Finset T} (h : s.Within ts) {ls : List (BlockStep T)}
    (hrun : Run step Quiet s ls s') : ls.length ≤ potential ts s ∧ s'.Within ts := by
  have hwithin : ∀ ls s', Run step Quiet s ls s' → s'.Within ts := fun ls s' hr =>
    hr.invariant (I := Within ts) h fun s l s' hw hok hs => by
      obtain ⟨t, ht, hcase⟩ := quiet_case hw hok hs
      exact hw.of_case ht hcase
  refine ⟨?_, hwithin _ _ hrun⟩
  have hle := hrun.length_le_of_potential (potential ts) fun ls s l s' hr hok hs => by
    obtain ⟨t, ht, hcase⟩ := quiet_case (hwithin _ _ hr) hok hs
    exact potential_lt ht hcase
  omega

/-- A thread with the lock is never stuck. -/
theorem Orderly.advance_of_holding (h : s.Orderly) (ht : (s.pc t).holding = true) :
    s.advance t false ≠ none := by
  unfold advance
  cases hpc : s.pc t with
  | callAdd | callWake | callUnlock | readTest | readUnlock | readRelease | pollTest | pollUnlock =>
    simp
  | readTake c =>
    cases hreqs : s.kernel.reqs with
    | nil => exact absurd hreqs (h.take t c hpc)
    | cons item rest => simp [Kernel.readTake, hreqs]
  | idle | callLock | readLock | readWait | readRetire | pollLock | pollSleep =>
    rw [hpc] at ht
    cases ht

/-- Where a thread is that cannot go on although the lock is free. -/
theorem sleeps_of_stuck (hlock : s.lock = none) (hstuck : s.advance t false = none)
    (hhold : (s.pc t).holding = false) : s.pc t = .idle ∨ (s.pc t).sleeps = true := by
  unfold advance at hstuck
  cases hpc : s.pc t with
  | idle => exact .inl rfl
  | callLock | readLock | pollLock => simp [hpc, acquire, hlock] at hstuck
  | readRetire => simp [hpc] at hstuck
  | pollSleep woken =>
    cases woken with
    | false => exact .inr rfl
    | true => simp [hpc] at hstuck
  | readWait p c =>
    simp only [hpc] at hstuck
    split at hstuck
    next hnext =>
      refine .inr ?_
      simpa [BlockPc.sleeps] using WaitPhase.next_eq_none.mp hnext
    all_goals cases hstuck
  | callAdd | callWake | callUnlock | readTest | readUnlock | readTake | readRelease | pollTest
  | pollUnlock =>
    rw [hpc] at hhold
    cases hhold

/-- When no thread can go on, those inside a call sleep and no request waits for them. -/
theorem Orderly.at_rest (h : s.Orderly) (hstuck : ∀ t, s.advance t false = none) (t : T) :
    s.pc t = .idle ∨ ((s.pc t).sleeps = true ∧ s.kernel.reqs = []) := by
  have hhold : ∀ u, (s.pc u).holding = false := fun u =>
    Bool.eq_false_iff.mpr fun hu => h.advance_of_holding hu (hstuck u)
  have hlock : s.lock = none := by
    cases hl : s.lock with
    | none => rfl
    | some u =>
      have hu := (h.holder u).mpr hl
      rw [hhold u] at hu
      cases hu
  refine (sleeps_of_stuck hlock (hstuck t) (hhold t)).imp_right fun hs => ⟨hs, ?_⟩
  by_contra hne
  obtain ⟨u, hu⟩ := h.told t hs hne
  have hcaller := hhold u
  rw [hu] at hcaller
  cases hcaller

/-- In every interleaving of any number of submissions, reads and polls: one thread at a
    time has `reqlock`; requests are taken once each, in the order they were appended;
    and a thread sleeps while a request waits only until the wake-up that the holder of
    the lock is about to make. Without new calls, signals and timeouts, the threads
    make only so many steps more, and when they can make none, each of them is out of
    its call or sleeps with no request left. -/
theorem blocking_comes_to_rest {k : Kernel} {ls : List (BlockStep T)}
    (hrun : Run step Free (init k) ls s) :
    (∀ t u, (s.pc t).holding = true → (s.pc u).holding = true → t = u) ∧
    s.appended = s.taken ++ s.kernel.reqs ∧
    (∀ t, (s.pc t).sleeps = true → s.kernel.reqs ≠ [] → ∃ u, s.pc u = .callWake ∧ s.lock = some u) ∧
    (∃ n, ∀ ls' s', Run step Quiet s ls' s' → ls'.length ≤ n) ∧
    ∀ ls' s', Run step Quiet s ls' s' → (∀ t, s'.advance t false = none) →
      ∀ t, s'.pc t = .idle ∨ ((s'.pc t).sleeps = true ∧ s'.kernel.reqs = []) := by
  have h := orderly_of_run hrun
  obtain ⟨ts, hts⟩ := within_of_run hrun
  refine ⟨fun t u => h.one_holder, h.order, fun t hs hne => ?_,
    ⟨potential ts s, fun ls' s' hr => (quiet_bounded hts hr).1⟩, fun ls' s' hr hstuck => ?_⟩
  · obtain ⟨u, hu⟩ := h.told t hs hne
    exact ⟨u, hu, (h.holder u).mp (by rw [hu]; rfl)⟩
  · exact (orderly_of_run (hrun.free.trans hr.free)).at_rest hstuck

/-- The kernel after `kgpu_init`, for runs on concrete requests. -/
def started : Kernel :=
  { terminated := false, ridSequence := 0, reqs := [], rtdreqs := [], gmpool := .empty 0x100000 2
    fpos := 0, req := fun _ => .constructed 0, sync := fun _ => ⟨.client 0, .client 0, false⟩
    callbacks := [] }

/-- A reader goes to sleep, and a caller appends its item. -/
def oneReader : List (BlockStep Bool) :=
  .read false false kuRequestSize :: List.replicate 6 (.next false false) ++
    .call true ⟨0, 0⟩ :: List.replicate 2 (.next true false)

def readerAsleep : Blocking Bool := (exec step oneReader (init started)).get rfl

/-- The reader is woken and takes the request. -/
theorem blocking_comes_to_rest_one_reader :
    ∃ ls s', Run step Free (init started) oneReader readerAsleep ∧ Run step Quiet readerAsleep ls s' ∧
      (readerAsleep.pc false).sleeps = true ∧ readerAsleep.kernel.reqs = [⟨0, 0⟩] ∧
      (∃ u, readerAsleep.pc u = .callWake ∧ readerAsleep.lock = some u) ∧ s'.taken = [⟨0, 0⟩] ∧
      ∀ t, s'.pc t = .idle ∨ ((s'.pc t).sleeps = true ∧ s'.kernel.reqs = []) := by
  have hrun : Run step Free (init started) oneReader readerAsleep := Run.of_exec rfl
  have hquiet : Run step Quiet readerAsleep
      (List.replicate 2 (.next true false) ++ List.replicate 8 (.next false false)) _ :=
    Run.of_forall rfl (by simp [Quiet])
  obtain ⟨-, -, htold, -, hrest⟩ := blocking_comes_to_rest hrun
  refine ⟨_, _, hrun, hquiet, rfl, rfl, htold false rfl (by decide), rfl, ?_⟩
  refine hrest _ _ hquiet fun t => ?_
  cases t <;> rfl

end Blocking
end Kgpu
