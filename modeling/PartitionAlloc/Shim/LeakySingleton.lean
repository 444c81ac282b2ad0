/-
The double-checked locking of `LeakySingleton` (`allocator_shim_default_dispatch_to_partition_alloc.cc`), under every
interleaving of any number of threads calling `Get()` and `Replace()`.

Model:
- pointers are numbers and `0` is `nullptr`; `instance_` starts null and `initialization_lock_` free (`g_roots` is a
  zero-initialised global).
- each step is one atomic access of one thread, in one order all threads see. `SimpleScopedSpinLocker`'s
  `compare_exchange_weak` takes the lock if it is free and otherwise (or spuriously) leaves everything as it was; its
  destructor's release store frees the lock, and the call returns right after.
- `Constructor::New` is `MainPartitionConstructor::New`, which constructs the root in place in `instance_buffer_` and
  returns its address. No other thread reads the buffer before the release store of `instance_` publishes it, so
  `New` and that store are one step.
- the log records what the contract is about: `Replace` being called and returning, `New`, the stores to `instance_`,
  and what each `Get()` returns, with the position of the log at which its fast-path load read `instance_`.

- `Inv.step`, `reachable_inv`: every interleaving keeps the lock held by exactly the threads past the CAS loop (at
  most one), `instance_` the last store of the log, and each logged event true of the log before it (`EventOk`);
- `leaky_singleton_contract`: so `New` runs at most once and never after a `Replace` returned, every `Get()` returns a
  non-null pointer that `New` returned or `Replace` was given, a `Get()` that starts after `Replace(p)` returned
  returns `p` or a pointer stored after that, and one thread at a time is past the CAS loop; such a `Get()` returns
  the instance `p` replaced only when a later `Replace` puts it back;
- `leaky_singleton_calls_return`: no interleaving deadlocks: a call in progress returns once the holder of the lock
  and then its caller run (`Inv.finish_call`). The lock is not fair, so nothing makes the other threads let them.
-/
import Mathlib.Logic.Function.Basic
import Mathlib.Data.List.Basic

namespace PartitionAlloc.Shim

/-- `MainPartitionConstructor::New(buffer)`: the placement `new` of the root returns `buffer` -/
def MainPartitionConstructor.new (buffer : Nat) : Nat := buffer

namespace LeakySingleton

/-- the call of a thread in `SimpleScopedSpinLocker`'s loop or under the lock -/
inductive Call where
  /-- `GetSlowPath()` of a `Get()` whose fast-path load was at position `start` of the log -/
  | get (start : Nat)
  /-- `Replace(new_instance)` -/
  | replace (newInstance : Nat)
  deriving DecidableEq

/-- where a thread is -/
inductive Pc where
  /-- in no call -/
  | idle
  /-- in `SimpleScopedSpinLocker`'s `compare_exchange_weak` loop -/
  | spin (call : Call)
  /-- `GetSlowPath()` under the lock, before its relaxed load of `instance_` -/
  | load (start : Nat)
  /-- `GetSlowPath()` under the lock, having read a null `instance_`: before `Constructor::New` and the store -/
  | construct (start : Nat)
  /-- `Replace()` under the lock, before its store -/
  | store (newInstance : Nat)
  /-- under the lock, before `~SimpleScopedSpinLocker`'s release store; a `Get()` then returns `ptr` -/
  | unlock (call : Call) (ptr : Nat)
  deriving DecidableEq

/-- the thread is past the CAS loop and holds `initialization_lock_` -/
def Pc.holdsLock : Pc → Bool
  | .load _ | .construct _ | .store _ | .unlock _ _ => true
  | .idle | .spin _ => false

/-- where a call goes once `SimpleScopedSpinLocker` has the lock -/
def Call.locked : Call → Pc
  | .get start => .load start
  | .replace newInstance => .store newInstance

/-- what the log records -/
inductive Event where
  /-- thread `t` calls `Replace(new_instance)` -/
  | replaceCalled (t newInstance : Nat)
  /-- `Constructor::New` runs -/
  | new
  /-- `instance_.store(ptr)` -/
  | store (ptr : Nat)
  /-- thread `t`'s `Replace(new_instance)` returns -/
  | replaceReturned (t newInstance : Nat)
  /-- thread `t`'s `Get()`, whose fast-path load was at position `start` of the log, returns `ptr` -/
  | getReturned (t start ptr : Nat)
  deriving DecidableEq

/-- what the log records when thread `t`'s call returns, a `Get()` with `ptr` -/
def Call.returned (t ptr : Nat) : Call → Event
  | .get start => .getReturned t start ptr
  | .replace newInstance => .replaceReturned t newInstance

/-- one `LeakySingleton`, the threads that use it, and the log -/
structure Shared where
  /-- `instance_` (`instance` is a keyword of Lean) -/
  instance_ : Nat
  initializationLock : Bool
  threads : Nat → Pc
  log : List Event

/-- what a thread does next -/
inductive Action where
  /-- `Get()` is called: its fast-path load -/
  | get (t : Nat)
  /-- `Replace(new_instance)` is called -/
  | replace (t newInstance : Nat)
  /-- the next step of thread `t`'s call -/
  | next (t : Nat)
  deriving DecidableEq

namespace Shared

/-- a zero-initialised singleton, and threads in no call -/
def initial : Shared := ⟨0, false, fun _ => .idle, []⟩

/-- `Get()`: the fast path's acquire load of `instance_`; a null instance goes on to `GetSlowPath()` -/
def get (s : Shared) (t : Nat) : Option Shared :=
  match s.threads t with
  | .idle =>
    if s.instance_ = 0 then some { s with threads := Function.update s.threads t (.spin (.get s.log.length)) }
    else some { s with log := s.log ++ [.getReturned t s.log.length s.instance_] }
  | _ => none

/-- `Replace(new_instance)` is called and enters `SimpleScopedSpinLocker`'s loop -/
def replace (s : Shared) (t newInstance : Nat) : Option Shared :=
  match s.threads t with
  | .idle =>
    some { s with
      threads := Function.update s.threads t (.spin (.replace newInstance))
      log := s.log ++ [.replaceCalled t newInstance] }
  | _ => none

/-- the next step of thread `t` in `SimpleScopedSpinLocker`, `GetSlowPath()` or `Replace()` -/
def next (instanceBuffer : Nat) (s : Shared) (t : Nat) : Option Shared :=
  match s.threads t with
  | .idle => none
  | .spin call =>
    if s.initializationLock then some s
    else some { s with initializationLock := true, threads := Function.update s.threads t call.locked }
  | .load start =>
    if s.instance_ = 0 then some { s with threads := Function.update s.threads t (.construct start) }
    else some { s with threads := Function.update s.threads t (.unlock (.get start) s.instance_) }
  | .construct start =>
    some { s with
      instance_ := MainPartitionConstructor.new instanceBuffer
      threads := Function.update s.threads t (.unlock (.get start) (MainPartitionConstructor.new instanceBuffer))
      log := s.log ++ [.new, .store (MainPartitionConstructor.new instanceBuffer)] }
  | .store newInstance =>
    some { s with
      instance_ := newInstance
      threads := Function.update s.threads t (.unlock (.replace newInstance) newInstance)
      log := s.log ++ [.store newInstance] }
  | .unlock call ptr =>
    some { s with
      initializationLock := false
      threads := Function.update s.threads t .idle
      log := s.log ++ [call.returned t ptr] }

/-- one step of one thread -/
def step (instanceBuffer : Nat) (s : Shared) : Action → Option Shared
  | .get t => s.get t
  | .replace t newInstance => s.replace t newInstance
  | .next t => s.next instanceBuffer t

end Shared

/-- the states an interleaving of `acts` leads to -/
inductive Reachable (instanceBuffer : Nat) (s₀ : Shared) : List Action → Shared → Prop
  | nil : Reachable instanceBuffer s₀ [] s₀
  | snoc {acts : List Action} {s s' : Shared} {a : Action} : Reachable instanceBuffer s₀ acts s →
      s.step instanceBuffer a = some s' → Reachable instanceBuffer s₀ (acts ++ [a]) s'

/-! ## The log -/

/-- the effect of an event on `instance_` -/
def Event.apply : Event → Nat → Nat
  | .store ptr, _ => ptr
  | _, ptr => ptr

/-- `instance_` after the stores of a log -/
def instanceAfter (log : List Event) : Nat := log.foldl (fun ptr e => e.apply ptr) 0

@[simp] theorem instanceAfter_nil : instanceAfter [] = 0 := rfl

@[simp] theorem instanceAfter_concat (log : List Event) (e : Event) :
    instanceAfter (log ++ [e]) = e.apply (instanceAfter log) := by
  simp [instanceAfter]

@[simp] theorem Event.apply_returned (call : Call) (t ptr x : Nat) : (call.returned t ptr).apply x = x := by
  cases call <;> rfl

/-- `Replace` being called, the only event that may come before `New` -/
def Event.isReplaceCalled : Event → Bool
  | .replaceCalled _ _ => true
  | _ => false

/-- `ptr` is not null, and is the instance `New` returned or a pointer `Replace` was given -/
def Supplied (instanceBuffer : Nat) (log : List Event) (ptr : Nat) : Prop :=
  ptr ≠ 0 ∧ (.new ∈ log ∧ ptr = MainPartitionConstructor.new instanceBuffer ∨ ∃ t, .replaceCalled t ptr ∈ log)

theorem Supplied.append {b : Nat} {log : List Event} {ptr : Nat} (h : Supplied b log ptr) (es : List Event) :
    Supplied b (log ++ es) ptr := by
  obtain ⟨hne, ⟨hnew, heq⟩ | ⟨t, ht⟩⟩ := h
  exacts [⟨hne, .inl ⟨List.mem_append_left _ hnew, heq⟩⟩, ⟨hne, .inr ⟨t, List.mem_append_left _ ht⟩⟩]

/-- every event of the log was true of the events before it -/
def EachAfter (P : List Event → Event → Prop) (log : List Event) : Prop :=
  ∀ i e, log[i]? = some e → P (log.take i) e

theorem EachAfter.append {P : List Event → Event → Prop} {log : List Event} {e : Event} (h : EachAfter P log)
    (he : P log e) : EachAfter P (log ++ [e]) := by
  intro i e' hi
  rcases Nat.lt_trichotomy i log.length with hlt | rfl | hgt
  · rw [List.getElem?_append_left hlt] at hi
    rw [List.take_append_of_le_length hlt.le]
    exact h i e' hi
  · rw [List.getElem?_concat_length] at hi
    cases hi
    rwa [List.take_left]
  · rw [List.getElem?_eq_none (by simp; omega)] at hi
    cases hi

/-- what held when each event happened -/
def EventOk (instanceBuffer : Nat) (pre : List Event) : Event → Prop
  | .new => ∀ e ∈ pre, e.isReplaceCalled
  | .replaceReturned _ newInstance => instanceAfter pre = newInstance
  | .getReturned _ start ptr =>
    Supplied instanceBuffer pre ptr ∧ ∃ m, start ≤ m ∧ m ≤ pre.length ∧ instanceAfter (pre.take m) = ptr
  | _ => True

/-- at most one `New` in a log each of whose `New`s had only `Replace` calls before it -/
theorem EachAfter.count_new_le_one {b : Nat} {log : List Event} (h : EachAfter (EventOk b) log) :
    log.count .new ≤ 1 := by
  suffices ∀ n, (log.take n).count .new ≤ 1 by simpa using this log.length
  intro n
  induction n with
  | zero => simp
  | succ n ih =>
    rw [List.take_succ, List.count_append]
    cases hn : log[n]? with
    | none => simpa using ih
    | some e =>
      by_cases he : e = .new
      · subst he
        have hfirst : Event.new ∉ log.take n := fun hmem => absurd (h n _ hn _ hmem) (by decide)
        simp [List.count_eq_zero_of_not_mem hfirst]
      · simpa [List.count_singleton', he] using ih

/-- `instance_` at a later point of the log is what it was at an earlier one, or a store in between -/
theorem instanceAfter_take_of_le (log : List Event) {i m : Nat} (h : i ≤ m) :
    instanceAfter (log.take m) = instanceAfter (log.take i) ∨
      ∃ m', i ≤ m' ∧ m' < m ∧ log[m']? = some (.store (instanceAfter (log.take m))) := by
  induction m, h using Nat.le_induction with
  | base => exact .inl rfl
  | succ m _ ih =>
    rw [List.take_succ]
    cases hm : log[m]? with
    | none => simpa using ih.imp_right fun ⟨m', h₁, h₂, h₃⟩ => ⟨m', h₁, by omega, h₃⟩
    | some e =>
      cases e with
      | store ptr => exact .inr ⟨m, by omega, by omega, by simp [hm, Event.apply]⟩
      | _ => simpa [Event.apply] using ih.imp_right fun ⟨m', h₁, h₂, h₃⟩ => ⟨m', h₁, by omega, h₃⟩

/-! ## What every interleaving keeps -/

/-- the lock is held exactly when a thread is past the CAS loop, and by one thread at most -/
structure LockOk (locked : Bool) (threads : Nat → Pc) : Prop where
  locked_iff : locked = true ↔ ∃ t, (threads t).holdsLock
  exclusive : ∀ t u, (threads t).holdsLock → (threads u).holdsLock → t = u

theorem holdsLock_update (threads : Nat → Pc) (t u : Nat) (pc : Pc) :
    (Function.update threads t pc u).holdsLock = if u = t then pc.holdsLock else (threads u).holdsLock := by
  by_cases h : u = t
  · subst h; simp
  · simp [Function.update_noteq h, h]

/-- a thread moves without taking or releasing the lock -/
theorem LockOk.update_same {l : Bool} {threads : Nat → Pc} {t : Nat} {pc : Pc} (h : LockOk l threads)
    (hpc : pc.holdsLock = (threads t).holdsLock) : LockOk l (Function.update threads t pc) := by
  have key : ∀ u, (Function.update threads t pc u).holdsLock = (threads u).holdsLock := fun u => by
    rw [holdsLock_update]; split <;> simp_all
  exact ⟨by simpa only [key] using h.locked_iff, fun u v => by simpa only [key] using h.exclusive u v⟩

/-- the CAS takes the free lock -/
theorem LockOk.acquire {threads : Nat → Pc} {t : Nat} {pc : Pc} (h : LockOk false threads) (hpc : pc.holdsLock) :
    LockOk true (Function.update threads t pc) := by
  have free : ∀ u, (threads u).holdsLock = false := fun u => by
    simpa using fun hu => (h.locked_iff.mpr ⟨u, hu⟩)
  refine ⟨iff_of_true rfl ⟨t, by simpa⟩, fun u v hu hv => ?_⟩
  rw [holdsLock_update] at hu hv
  split at hu <;> split at hv <;> simp_all

/-- the destructor's release store frees the lock -/
theorem LockOk.release {threads : Nat → Pc} {t : Nat} {pc : Pc} (h : LockOk true threads)
    (ht : (threads t).holdsLock) (hpc : pc.holdsLock = false) : LockOk false (Function.update threads t pc) := by
  refine ⟨⟨(absurd · (by decide)), fun ⟨u, hu⟩ => ?_⟩, fun u v hu hv => ?_⟩
  · rw [holdsLock_update] at hu
    split at hu
    · simp_all
    · exact absurd (h.exclusive u t hu ht) ‹_›
  · rw [holdsLock_update] at hu hv
    split at hu <;> split at hv <;> simp_all [h.exclusive u v]

/-- what holds of a thread where it is -/
def PcOk (instanceBuffer : Nat) (s : Shared) : Pc → Prop
  | .idle => True
  | .spin (.get start) | .load start => start ≤ s.log.length
  | .construct start => start ≤ s.log.length ∧ s.instance_ = 0
  | .spin (.replace newInstance) | .store newInstance => Supplied instanceBuffer s.log newInstance
  | .unlock (.get start) ptr =>
    s.instance_ = ptr ∧ ptr ≠ 0 ∧ ∃ m, start ≤ m ∧ m ≤ s.log.length ∧ instanceAfter (s.log.take m) = ptr
  | .unlock (.replace newInstance) _ => s.instance_ = newInstance ∧ newInstance ≠ 0

theorem PcOk.spin {b : Nat} {s : Shared} (call : Call) : PcOk b s (.spin call) = PcOk b s call.locked := by
  cases call <;> rfl

/-- a thread's facts survive others' steps: the log only grows, and `instance_` changes only under the lock -/
theorem PcOk.mono {b : Nat} {s s' : Shared} {pc : Pc} (h : PcOk b s pc) (es : List Event)
    (hlog : s'.log = s.log ++ es) (hinst : pc.holdsLock → s'.instance_ = s.instance_) : PcOk b s' pc := by
  have hlen : s.log.length ≤ s'.log.length := by simp [hlog]
  have htake : ∀ m ≤ s.log.length, s'.log.take m = s.log.take m := fun m hm => by
    rw [hlog, List.take_append_of_le_length hm]
  match pc, h with
  | .idle, _ => trivial
  | .spin (.get _), h | .load _, h => exact le_trans h hlen
  | .construct _, h => exact ⟨le_trans h.1 hlen, (hinst rfl).trans h.2⟩
  | .spin (.replace _), h | .store _, h => exact (show Supplied _ _ _ from hlog ▸ Supplied.append h es)
  | .unlock (.get _) _, h =>
    obtain ⟨h₁, h₂, m, hm₁, hm₂, hm₃⟩ := h
    exact ⟨(hinst rfl).trans h₁, h₂, m, hm₁, le_trans hm₂ hlen, by rw [htake m hm₂, hm₃]⟩
  | .unlock (.replace _) _, h => exact ⟨(hinst rfl).trans h.1, h.2⟩

/-- the invariant of every interleaving -/
structure Shared.Inv (instanceBuffer : Nat) (s : Shared) : Prop where
  log_ok : EachAfter (EventOk instanceBuffer) s.log
  instance_eq : s.instance_ = instanceAfter s.log
  instance_supplied : s.instance_ ≠ 0 → Supplied instanceBuffer s.log s.instance_
  null_log : s.instance_ = 0 → ∀ e ∈ s.log, e.isReplaceCalled
  lock_ok : LockOk s.initializationLock s.threads
  threads_ok : ∀ t, PcOk instanceBuffer s (s.threads t)

namespace Shared

variable {b : Nat} {s s' : Shared} {t : Nat}

/-- thread `t` moves to `pc` and the log grows by `es`: the other threads keep their facts, if `instance_` changes
only when `t` holds the lock -/
theorem Inv.threads_ok_update (hs : s.Inv b) {pc : Pc} (es : List Event)
    (hth : s'.threads = Function.update s.threads t pc) (hlog : s'.log = s.log ++ es)
    (hinst : s'.instance_ = s.instance_ ∨ (s.threads t).holdsLock) (hpc : PcOk b s' pc) :
    ∀ u, PcOk b s' (s'.threads u) := by
  intro u
  by_cases hu : u = t
  · subst hu; simpa [hth] using hpc
  · rw [hth, Function.update_noteq hu]
    refine (hs.threads_ok u).mono es hlog fun hl => hinst.resolve_right fun ht => hu ?_
    exact hs.lock_ok.exclusive u t hl ht

/-- a step of `t` that changes neither `instance_` nor the log keeps the invariant, if it keeps the lock's and `t`'s
facts -/
theorem Inv.quiet (hs : s.Inv b) {l : Bool} {pc : Pc} (hlock : LockOk l (Function.update s.threads t pc))
    (hpc : PcOk b s pc) :
    ({ s with initializationLock := l, threads := Function.update s.threads t pc } : Shared).Inv b :=
  ⟨hs.log_ok, hs.instance_eq, hs.instance_supplied, hs.null_log, hlock,
    hs.threads_ok_update [] rfl (List.append_nil _).symm (.inl rfl) hpc⟩

theorem Inv.get (hs : s.Inv b) (h : s.get t = some s') : s'.Inv b := by
  unfold Shared.get at h
  split at h
  next hidle =>
    split at h <;> cases h
    next hnull =>
      exact hs.quiet (hs.lock_ok.update_same (by simp [hidle, Pc.holdsLock])) (show _ ≤ _ from le_refl _)
    next hnull =>
      refine ⟨hs.log_ok.append ⟨hs.instance_supplied hnull, _, le_refl _, le_refl _, ?_⟩, ?_,
        fun h => (hs.instance_supplied h).append _, fun h => absurd h hnull, hs.lock_ok,
        fun u => (hs.threads_ok u).mono _ rfl fun _ => rfl⟩
      · rw [List.take_length, hs.instance_eq]
      · simpa [Event.apply] using hs.instance_eq
  next => cases h

theorem Inv.replace (hs : s.Inv b) {newInstance : Nat} (hnz : newInstance ≠ 0)
    (h : s.replace t newInstance = some s') : s'.Inv b := by
  unfold Shared.replace at h
  split at h
  next hidle =>
    cases h
    refine ⟨hs.log_ok.append trivial, by simpa [Event.apply] using hs.instance_eq,
      fun h => (hs.instance_supplied h).append _, fun h e he => ?_,
      hs.lock_ok.update_same (by simp [hidle, Pc.holdsLock]), ?_⟩
    · rcases List.mem_append.mp he with he | he
      · exact hs.null_log h e he
      · simp_all [Event.isReplaceCalled]
    · exact hs.threads_ok_update _ rfl rfl (.inl rfl) ⟨hnz, .inr ⟨t, by simp⟩⟩
  next => cases h

theorem Inv.pcOk (hs : s.Inv b) {pc : Pc} (hpc : s.threads t = pc) : PcOk b s pc := hpc ▸ hs.threads_ok t

theorem Inv.next (hs : s.Inv b) (hbuf : b ≠ 0) (h : s.next b t = some s') : s'.Inv b := by
  unfold Shared.next at h
  split at h
  next => cases h
  next call hpc =>
    split at h <;> cases h
    next => exact hs
    next hfree =>
      have hfalse : s.initializationLock = false := by simpa using hfree
      exact hs.quiet ((hfalse ▸ hs.lock_ok).acquire (by cases call <;> rfl)) (PcOk.spin call ▸ hs.pcOk hpc)
  next start hpc =>
    have hload : start ≤ s.log.length := hs.pcOk hpc
    split at h <;> cases h
    next hnull => exact hs.quiet (hs.lock_ok.update_same (by simp [hpc, Pc.holdsLock])) ⟨hload, hnull⟩
    next hnull =>
      refine hs.quiet (hs.lock_ok.update_same (by simp [hpc, Pc.holdsLock]))
        ⟨rfl, hnull, s.log.length, hload, le_refl _, ?_⟩
      rw [List.take_length, hs.instance_eq]
  next start hpc =>
    cases h
    have hok : start ≤ s.log.length ∧ s.instance_ = 0 := hs.pcOk hpc
    have hv : MainPartitionConstructor.new b ≠ 0 := hbuf
    have hafter : instanceAfter (s.log ++ [.new, .store (MainPartitionConstructor.new b)]) =
        MainPartitionConstructor.new b := by simp [instanceAfter, Event.apply]
    refine ⟨by simpa using (hs.log_ok.append (e := .new) (hs.null_log hok.2)).append (e := .store _) trivial, hafter.symm,
      fun _ => ⟨hv, .inl ⟨by simp, rfl⟩⟩, fun h => absurd h hv,
      hs.lock_ok.update_same (by simp [hpc, Pc.holdsLock]), ?_⟩
    refine hs.threads_ok_update _ rfl rfl (.inr (by simp [hpc, Pc.holdsLock]))
      ⟨rfl, hv, _, le_trans hok.1 (by simp), le_refl _, ?_⟩
    rw [List.take_length]
    exact hafter
  next newInstance hpc =>
    cases h
    have hok : Supplied b s.log newInstance := hs.pcOk hpc
    refine ⟨hs.log_ok.append trivial, by simp [Event.apply], fun _ => hok.append _, fun h => absurd h hok.1,
      hs.lock_ok.update_same (by simp [hpc, Pc.holdsLock]), ?_⟩
    exact hs.threads_ok_update _ rfl rfl (.inr (by simp [hpc, Pc.holdsLock])) ⟨rfl, hok.1⟩
  next call ptr hpc =>
    cases h
    have hheld : (s.threads t).holdsLock := by simp [hpc, Pc.holdsLock]
    have hlocked := hs.lock_ok.locked_iff.mpr ⟨t, hheld⟩
    obtain ⟨hnz, hev⟩ : s.instance_ ≠ 0 ∧ EventOk b s.log (call.returned t ptr) := by
      have hok := hs.pcOk hpc
      cases call with
      | get start =>
        obtain ⟨rfl, hnz, hm⟩ := hok
        exact ⟨hnz, hs.instance_supplied hnz, hm⟩
      | replace newInstance => exact ⟨hok.1 ▸ hok.2, hs.instance_eq.symm.trans hok.1⟩
    refine ⟨hs.log_ok.append hev, by simpa using hs.instance_eq, fun h => (hs.instance_supplied h).append _,
      fun h => absurd h hnz, (hlocked ▸ hs.lock_ok).release hheld rfl, ?_⟩
    exact hs.threads_ok_update _ rfl rfl (.inl rfl) trivial

theorem Inv.step (hs : s.Inv b) (hbuf : b ≠ 0) {a : Action} (ha : ∀ t newInstance, a = .replace t newInstance → newInstance ≠ 0)
    (h : s.step b a = some s') : s'.Inv b := by
  cases a with
  | get t => exact hs.get h
  | replace t newInstance => exact hs.replace (ha t newInstance rfl) h
  | next t => exact hs.next hbuf h

theorem Inv.initial (b : Nat) : Shared.initial.Inv b where
  log_ok _ _ h := by cases h
  instance_eq := rfl
  instance_supplied h := absurd rfl h
  null_log _ _ he := by cases he
  lock_ok := ⟨iff_of_false (by decide) (fun ⟨_, h⟩ => by cases h), fun _ _ h => by cases h⟩
  threads_ok _ := trivial

end Shared

/-- **Every interleaving keeps the invariant**, when `Replace` is given non-null pointers. -/
theorem reachable_inv {b : Nat} (hbuf : b ≠ 0) {acts : List Action} {s : Shared}
    (hacts : ∀ t newInstance, Action.replace t newInstance ∈ acts → newInstance ≠ 0)
    (hrun : Reachable b Shared.initial acts s) : s.Inv b := by
  induction hrun with
  | nil => exact Shared.Inv.initial b
  | snoc _ hstep ih =>
    refine (ih fun t p h => hacts t p (List.mem_append_left _ h)).step hbuf (fun t p h => ?_) hstep
    exact hacts t p (by simp [h])

/-! ## Every call can return

`SimpleScopedSpinLocker` is not fair: a thread can spin for as long as others keep taking the lock. What holds is
that no interleaving deadlocks: from any state, the holder of the lock finishes its call in at most three steps, and a
thread that then takes the lock finishes its own in at most four. -/

/-- the call a thread is in -/
def Pc.call : Pc → Option Call
  | .idle => none
  | .spin call | .unlock call _ => some call
  | .load start | .construct start => some (.get start)
  | .store newInstance => some (.replace newInstance)

theorem Pc.call_of_holdsLock {pc : Pc} (h : pc.holdsLock) : ∃ call, pc.call = some call := by
  cases pc <;> simp_all [Pc.holdsLock, Pc.call]

theorem Reachable.append {b : Nat} {s₀ s s' : Shared} {acts acts' : List Action} (h₁ : Reachable b s₀ acts s)
    (h₂ : Reachable b s acts' s') : Reachable b s₀ (acts ++ acts') s' := by
  induction h₂ with
  | nil => simpa using h₁
  | snoc _ hstep ih => simpa using ih.snoc hstep

namespace Shared

variable {b : Nat} {s s₁ : Shared} {t : Nat} {call : Call}

theorem next_spin (hpc : s.threads t = .spin call) (hfree : s.initializationLock = false) :
    s.next b t = some { s with initializationLock := true, threads := Function.update s.threads t call.locked } := by
  simp [Shared.next, hpc, hfree]

theorem next_load_null {start : Nat} (hpc : s.threads t = .load start) (hnull : s.instance_ = 0) :
    s.next b t = some { s with threads := Function.update s.threads t (.construct start) } := by
  simp [Shared.next, hpc, hnull]

theorem next_load {start : Nat} (hpc : s.threads t = .load start) (hnull : s.instance_ ≠ 0) :
    s.next b t = some { s with threads := Function.update s.threads t (.unlock (.get start) s.instance_) } := by
  simp [Shared.next, hpc, hnull]

theorem next_construct {start : Nat} (hpc : s.threads t = .construct start) :
    s.next b t = some { s with
      instance_ := MainPartitionConstructor.new b
      threads := Function.update s.threads t (.unlock (.get start) (MainPartitionConstructor.new b))
      log := s.log ++ [.new, .store (MainPartitionConstructor.new b)] } := by
  simp [Shared.next, hpc]

theorem next_store {newInstance : Nat} (hpc : s.threads t = .store newInstance) :
    s.next b t = some { s with
      instance_ := newInstance
      threads := Function.update s.threads t (.unlock (.replace newInstance) newInstance)
      log := s.log ++ [.store newInstance] } := by
  simp [Shared.next, hpc]

theorem next_unlock {ptr : Nat} (hpc : s.threads t = .unlock call ptr) :
    s.next b t = some { s with
      initializationLock := false
      threads := Function.update s.threads t .idle
      log := s.log ++ [call.returned t ptr] } := by
  simp [Shared.next, hpc]

/-- thread `t` finishes `call` alone in at most `n` steps: it ends idle with the lock free, the other threads where
they were, and the call's return logged -/
def Finishes (b : Nat) (s : Shared) (t : Nat) (call : Call) (n : Nat) : Prop :=
  ∃ k s' ptr es, k ≤ n ∧ Reachable b s (List.replicate k (.next t)) s' ∧
    s'.threads = Function.update s.threads t .idle ∧ s'.initializationLock = false ∧ s'.log = s.log ++ es ∧
    call.returned t ptr ∈ es

theorem Finishes.mono {n m : Nat} (h : s.Finishes b t call n) (hnm : n ≤ m) : s.Finishes b t call m :=
  let ⟨k, s', ptr, es, hk, rest⟩ := h
  ⟨k, s', ptr, es, le_trans hk hnm, rest⟩

/-- one step of `t` before it finishes -/
theorem Finishes.cons {pc : Pc} {es₁ : List Event} {n : Nat} (hstep : s.next b t = some s₁)
    (hth : s₁.threads = Function.update s.threads t pc) (hlog : s₁.log = s.log ++ es₁) (h : s₁.Finishes b t call n) :
    s.Finishes b t call (n + 1) := by
  obtain ⟨k, s', ptr, es, hk, hrun, hth', hlock, hlog', hmem⟩ := h
  refine ⟨k + 1, s', ptr, es₁ ++ es, by omega, (Reachable.nil.snoc (a := .next t) hstep).append hrun,
    by rw [hth', hth, Function.update_idem], hlock, by rw [hlog', hlog, List.append_assoc],
    List.mem_append_right _ hmem⟩

theorem finishes_unlock (ptr : Nat) (hpc : s.threads t = .unlock call ptr) : s.Finishes b t call 1 :=
  ⟨1, _, ptr, _, le_refl 1, Reachable.nil.snoc (a := .next t) (next_unlock hpc), rfl, rfl, rfl,
    List.mem_singleton_self _⟩

/-- **The holder of the lock finishes its call** in at most three steps. -/
theorem finishes_of_holdsLock (hheld : (s.threads t).holdsLock) (hcall : (s.threads t).call = some call) :
    s.Finishes b t call 3 := by
  cases hpc : s.threads t with
  | idle | spin _ => simp [hpc, Pc.holdsLock] at hheld
  | unlock c ptr =>
    obtain rfl : c = call := by simpa [hpc, Pc.call] using hcall
    exact (finishes_unlock ptr hpc).mono (by omega)
  | store newInstance =>
    obtain rfl : Call.replace newInstance = call := by simpa [hpc, Pc.call] using hcall
    exact (Finishes.cons (next_store hpc) rfl rfl (finishes_unlock newInstance (by simp))).mono (by omega)
  | construct start =>
    obtain rfl : Call.get start = call := by simpa [hpc, Pc.call] using hcall
    exact (Finishes.cons (next_construct hpc) rfl rfl
      (finishes_unlock (MainPartitionConstructor.new b) (by simp))).mono (by omega)
  | load start =>
    obtain rfl : Call.get start = call := by simpa [hpc, Pc.call] using hcall
    by_cases hnull : s.instance_ = 0
    · exact Finishes.cons (next_load_null hpc hnull) rfl (List.append_nil _).symm
        (Finishes.cons (next_construct (Function.update_same _ _ _)) rfl rfl
          (finishes_unlock (MainPartitionConstructor.new b) (by simp)))
    · exact (Finishes.cons (next_load hpc hnull) rfl (List.append_nil _).symm
        (finishes_unlock s.instance_ (by simp))).mono (by omega)

/-- a spinning thread that finds the lock free finishes in at most four steps -/
theorem finishes_spin (hpc : s.threads t = .spin call) (hfree : s.initializationLock = false) :
    s.Finishes b t call 4 :=
  Finishes.cons (next_spin hpc hfree) rfl (List.append_nil _).symm
    (finishes_of_holdsLock (by cases call <;> simp [Call.locked, Pc.holdsLock])
      (by cases call <;> simp [Call.locked, Pc.call]))

/-- **Every call can return**: running the holder of the lock to its release and then the caller, in at most seven
steps, logs the call's return. -/
theorem Inv.finish_call (hs : s.Inv b) (hcall : (s.threads t).call = some call) :
    ∃ acts s' ptr es, acts.length ≤ 7 ∧ Reachable b s acts s' ∧ s'.threads t = .idle ∧ s'.log = s.log ++ es ∧
      call.returned t ptr ∈ es := by
  have run : ∀ {n}, s.Finishes b t call n → n ≤ 7 → ∃ acts s' ptr es, acts.length ≤ 7 ∧ Reachable b s acts s' ∧
      s'.threads t = .idle ∧ s'.log = s.log ++ es ∧ call.returned t ptr ∈ es := fun h hn => by
    obtain ⟨k, s', ptr, es, hk, hrun, hth, -, hlog, hmem⟩ := h
    exact ⟨_, s', ptr, es, by simp; omega, hrun, by simp [hth], hlog, hmem⟩
  by_cases hheld : (s.threads t).holdsLock
  · exact run (finishes_of_holdsLock hheld hcall) (by omega)
  cases hpc : s.threads t with
  | idle => simp [hpc, Pc.call] at hcall
  | spin c =>
    obtain rfl : c = call := by simpa [hpc, Pc.call] using hcall
    cases hlock : s.initializationLock
    · exact run (finishes_spin hpc hlock) (by omega)
    obtain ⟨u, hu⟩ := hs.lock_ok.locked_iff.mp hlock
    have hne : u ≠ t := by rintro rfl; simp [hpc, Pc.holdsLock] at hu
    obtain ⟨cu, hcu⟩ := Pc.call_of_holdsLock hu
    obtain ⟨k, s₁, -, es₁, hk, hrun₁, hth₁, hlock₁, hlog₁, -⟩ := finishes_of_holdsLock (b := b) hu hcu
    have hpc₁ : s₁.threads t = .spin c := by rw [hth₁, Function.update_noteq hne.symm, hpc]
    obtain ⟨k', s', ptr, es, hk', hrun, hth, -, hlog, hmem⟩ := finishes_spin (b := b) hpc₁ hlock₁
    exact ⟨_, s', ptr, es₁ ++ es, by simp; omega, hrun₁.append hrun, by simp [hth],
      by rw [hlog, hlog₁, List.append_assoc], List.mem_append_right _ hmem⟩
  | _ => simp [hpc, Pc.holdsLock] at hheld

end Shared

/-- **The double-checked locking.** In every interleaving of `Get()`s and of `Replace`s given non-null pointers:
`Constructor::New` runs at most once, and never after a `Replace` returned; every `Get()` returns a non-null pointer,
which `New` returned or a `Replace` called before was given; a `Get()` whose fast-path load comes after `Replace(p)`
returned returns `p` or a pointer stored after that return (not, unless stored again, the instance `p` replaced);
and at most one thread at a time is past `SimpleScopedSpinLocker`'s CAS loop. -/
theorem leaky_singleton_contract {instanceBuffer : Nat} (hbuf : instanceBuffer ≠ 0) {acts : List Action}
    {s : Shared} (hacts : ∀ t newInstance, Action.replace t newInstance ∈ acts → newInstance ≠ 0)
    (hrun : Reachable instanceBuffer Shared.initial acts s) :
    (s.log.count .new ≤ 1 ∧ ∀ i : Nat, s.log[i]? = some .new → ∀ t p, .replaceReturned t p ∉ s.log.take i) ∧
      (∀ k t start ptr : Nat, s.log[k]? = some (.getReturned t start ptr) →
        ptr ≠ 0 ∧ (.new ∈ s.log.take k ∧ ptr = MainPartitionConstructor.new instanceBuffer ∨
          ∃ t', .replaceCalled t' ptr ∈ s.log.take k)) ∧
      (∀ i t p k u start ptr : Nat, s.log[i]? = some (.replaceReturned t p) → i < start →
        s.log[k]? = some (.getReturned u start ptr) →
        ptr = p ∨ ∃ m, i < m ∧ m < k ∧ s.log[m]? = some (.store ptr)) ∧
      ∀ t u, (s.threads t).holdsLock → (s.threads u).holdsLock → t = u := by
  have hs := reachable_inv hbuf hacts hrun
  refine ⟨⟨hs.log_ok.count_new_le_one, fun i hi t p hmem => Bool.false_ne_true (hs.log_ok i _ hi _ hmem)⟩,
    fun k t start ptr hk => (hs.log_ok k _ hk).1, fun i t p k u start ptr hi hstart hk => ?_, hs.lock_ok.exclusive⟩
  obtain ⟨-, m, hm₁, hm₂, hm₃⟩ := hs.log_ok k _ hk
  have hp : instanceAfter (s.log.take i) = p := hs.log_ok i _ hi
  have hmk : m ≤ k := le_trans hm₂ (List.length_take_le _ _)
  rw [List.take_take, min_eq_left hmk] at hm₃
  rcases instanceAfter_take_of_le s.log (show i ≤ m by omega) with h | ⟨m', h₁, h₂, h₃⟩
  · exact .inl (hm₃.symm.trans (h.trans hp))
  · refine .inr ⟨m', lt_of_le_of_ne h₁ ?_, by omega, hm₃ ▸ h₃⟩
    rintro rfl
    rw [hi] at h₃
    cases h₃

/-! ## A `Replace` that puts the replaced instance back -/

/-- thread 0's `Get()` constructs the instance at `0x1000`; thread 1 replaces it by `0x2000`, then puts `0x1000` back;
then thread 2 calls `Get()` -/
def restoreActs : List Action :=
  [.get 0, .next 0, .next 0, .next 0, .next 0, .replace 1 0x2000, .next 1, .next 1, .next 1, .replace 1 0x1000,
    .next 1, .next 1, .next 1, .get 2]

theorem restore_run : ∃ s, Reachable 0x1000 Shared.initial restoreActs s ∧
    s.log = [.new, .store 0x1000, .getReturned 0 0 0x1000, .replaceCalled 1 0x2000, .store 0x2000,
      .replaceReturned 1 0x2000, .replaceCalled 1 0x1000, .store 0x1000, .replaceReturned 1 0x1000,
      .getReturned 2 9 0x1000] := by
  have h₀ : Reachable 0x1000 Shared.initial [] Shared.initial := .nil
  have h₅ := ((((h₀.snoc (a := .get 0) rfl).snoc (a := .next 0) rfl).snoc (a := .next 0) rfl).snoc
    (a := .next 0) rfl).snoc (a := .next 0) rfl
  have h₉ := (((h₅.snoc (a := .replace 1 0x2000) rfl).snoc (a := .next 1) rfl).snoc (a := .next 1) rfl).snoc
    (a := .next 1) rfl
  have h₁₃ := (((h₉.snoc (a := .replace 1 0x1000) rfl).snoc (a := .next 1) rfl).snoc (a := .next 1) rfl).snoc
    (a := .next 1) rfl
  exact ⟨_, h₁₃.snoc (a := .get 2) rfl, rfl⟩

theorem leaky_singleton_contract_restore :
    (0x1000 : Nat) ≠ 0 ∧ (∀ t newInstance, Action.replace t newInstance ∈ restoreActs → newInstance ≠ 0) ∧
      ∃ s, Reachable 0x1000 Shared.initial restoreActs s ∧
        (s.log.count .new ≤ 1 ∧ ∀ i : Nat, s.log[i]? = some .new → ∀ t p, .replaceReturned t p ∉ s.log.take i) ∧
        (∀ k t start ptr : Nat, s.log[k]? = some (.getReturned t start ptr) →
          ptr ≠ 0 ∧ (.new ∈ s.log.take k ∧ ptr = MainPartitionConstructor.new 0x1000 ∨
            ∃ t', .replaceCalled t' ptr ∈ s.log.take k)) ∧
        (∀ i t p k u start ptr : Nat, s.log[i]? = some (.replaceReturned t p) → i < start →
          s.log[k]? = some (.getReturned u start ptr) →
          ptr = p ∨ ∃ m, i < m ∧ m < k ∧ s.log[m]? = some (.store ptr)) ∧
        ∀ t u, (s.threads t).holdsLock → (s.threads u).holdsLock → t = u := by
  have hacts : ∀ t newInstance, Action.replace t newInstance ∈ restoreActs → newInstance ≠ 0 := by
    intro t p h
    simp [restoreActs] at h
    omega
  obtain ⟨s, hrun, -⟩ := restore_run
  exact ⟨by decide, hacts, s, hrun, leaky_singleton_contract (by decide) hacts hrun⟩

/- The replaced instance comes back: thread 1's `Replace(0x2000)` stores `0x2000` over `0x1000` at position 4 and
returns at position 5; thread 2's `Get()` loads `instance_` at position 9, after that return, and returns `0x1000`,
the instance `Replace(0x2000)` replaced, since `Replace(0x1000)` stored it again in between. -/
example : ∃ s, Reachable 0x1000 Shared.initial restoreActs s ∧
    instanceAfter (s.log.take 4) = 0x1000 ∧ s.log[4]? = some (.store 0x2000) ∧
    s.log[5]? = some (.replaceReturned 1 0x2000) ∧ s.log[9]? = some (.getReturned 2 9 0x1000) := by
  obtain ⟨s, hrun, hlog⟩ := restore_run
  refine ⟨s, hrun, ?_⟩
  rw [hlog]
  exact ⟨rfl, rfl, rfl, rfl⟩

/-! ## No interleaving deadlocks -/

/-- **Every call returns when let run.** In every interleaving of `Get()`s and of `Replace`s given non-null
pointers, a call in progress returns once the holder of `initialization_lock_`, and then the caller, take their next
steps: in at most seven steps, with the return logged. The spin lock is not fair, so other threads that keep taking
it can delay that for as long as they run. -/
theorem leaky_singleton_calls_return {instanceBuffer : Nat} (hbuf : instanceBuffer ≠ 0) {acts : List Action}
    {s : Shared} (hacts : ∀ t newInstance, Action.replace t newInstance ∈ acts → newInstance ≠ 0)
    (hrun : Reachable instanceBuffer Shared.initial acts s) :
    ∀ t call, (s.threads t).call = some call → ∃ acts' s' ptr es, acts'.length ≤ 7 ∧
      Reachable instanceBuffer s acts' s' ∧ s'.threads t = .idle ∧ s'.log = s.log ++ es ∧ call.returned t ptr ∈ es :=
  fun _ _ h => (reachable_inv hbuf hacts hrun).finish_call h

/-- thread 0's `Get()` takes the lock on a null `instance_`; thread 1's `Replace(0x2000)` then spins on it -/
def contendedActs : List Action := [.get 0, .next 0, .replace 1 0x2000, .next 1]

theorem leaky_singleton_calls_return_contended :
    (0x1000 : Nat) ≠ 0 ∧ (∀ t newInstance, Action.replace t newInstance ∈ contendedActs → newInstance ≠ 0) ∧
      ∃ s, Reachable 0x1000 Shared.initial contendedActs s ∧ s.threads 1 = .spin (.replace 0x2000) ∧
        ∀ t call, (s.threads t).call = some call → ∃ acts' s' ptr es, acts'.length ≤ 7 ∧
          Reachable 0x1000 s acts' s' ∧ s'.threads t = .idle ∧ s'.log = s.log ++ es ∧ call.returned t ptr ∈ es := by
  have hacts : ∀ t newInstance, Action.replace t newInstance ∈ contendedActs → newInstance ≠ 0 := by
    intro t p h
    simp [contendedActs] at h
    omega
  have h₀ : Reachable 0x1000 Shared.initial [] Shared.initial := .nil
  have hrun := (((h₀.snoc (a := .get 0) rfl).snoc (a := .next 0) rfl).snoc (a := .replace 1 0x2000) rfl).snoc
    (a := .next 1) rfl
  exact ⟨by decide, hacts, _, hrun, rfl, leaky_singleton_calls_return (by decide) hacts hrun⟩

end LeakySingleton

end PartitionAlloc.Shim
