import PhsaRuntime.Agent
import PhsaRuntime.Lib.Atomic
import Mathlib.Data.Finset.Card

/-!
# The runtime and its sessions

`Runtime::initialize`, `Runtime::release` with `~Runtime`, and the way in which every function of
the interface gets hold of the runtime, called by any number of threads. A session is the life of
one `CPURuntime`: the worker of its agent is started when it is created, and joined when it is
deleted. RuntimeSessions follow one another in the process, and all of their workers look at the one
global variable `ShutDown`.

`ReferenceCounter` and `Instance` are read by the interface without a lock.

## Main definitions

* `RuntimePc` — where a thread is.
* `RuntimeState` — the variables of the runtime, the agent of each session, and the threads.
* `runtimeMachine` — the threads, and the agents of the sessions with them.
-/

namespace PhsaRuntime

/-- The functions that change the reference count. -/
inductive RuntimeCall
  /-- `hsa_init`. -/
  | init
  /-- `hsa_shut_down`. -/
  | release
  deriving DecidableEq, Repr

/-- Where a thread is in the runtime. -/
inductive RuntimePc
  | idle
  /-- About to lock `ReferenceCounterMutex`. -/
  | lockCounter (call : RuntimeCall)
  /-- About to compare `ReferenceCounter`. -/
  | check (call : RuntimeCall)
  /-- About to lock `InstanceMutex`. -/
  | lockInstance (call : RuntimeCall)
  /-- About to construct a `CPURuntime`. -/
  | create
  /-- About to store the new runtime to `Instance`. -/
  | assign (session : ℕ)
  /-- In `CPUKernelAgent::shutDown`, about to set `ShutDown`. -/
  | storeShutDown (session : ℕ)
  /-- In `Worker.join()`. -/
  | join (session : ℕ)
  /-- In the rest of `~Runtime`. -/
  | destroy (session : ℕ)
  /-- About to store `nullptr` to `Instance`. -/
  | assignNull
  | unlockInstance (call : RuntimeCall)
  /-- About to store to `ReferenceCounter`. -/
  | count (call : RuntimeCall)
  | unlockCounter (call : RuntimeCall) (ok : Bool)
  /-- In a function of the interface, about to call `Runtime::isInitialized`. -/
  | isInitialized
  /-- About to call `Runtime::get`. -/
  | get
  /-- At work with the runtime that `get` has returned. -/
  | inCall (session : Option ℕ)
  deriving DecidableEq, Repr

/-- The variables of the runtime, and the agents of its sessions. -/
structure RuntimeSessions (Q T M L : Type) where
  referenceCounter : ℕ
  /-- `Instance`. -/
  runtime : Option ℕ
  /-- How many sessions there have been. -/
  created : ℕ
  destroyed : ℕ → Bool
  shutDown : Bool
  agent : ℕ → AgentState Q T M L

/-- The sessions, the owners of the two mutexes, and where the threads are. -/
structure RuntimeState (Q T M L : Type) extends RuntimeSessions Q T M L where
  referenceCounterMutex : Option T
  instanceMutex : Option T
  thread : T → RuntimePc
  /-- The successful calls of `hsa_init` that have returned, less the calls of `hsa_shut_down`. -/
  references : ℕ
  /-- The threads whose `hsa_shut_down` has not been counted yet. -/
  releasing : Finset T
  /-- The calls of `hsa_init` and `hsa_shut_down` and what they have returned, latest first. -/
  history : List (AtomicEvent T RuntimeCall Bool)

/-- The steps of the threads and of the agents. -/
inductive RuntimeAction (Q T N R E : Type)
  | call (t : T) (call : RuntimeCall)
  /-- A thread calls some other function of the interface. -/
  | api (t : T)
  /-- It returns. -/
  | leave (t : T)
  /-- A step of a thread in the code of the runtime; a new session starts with the memory `m`. -/
  | thread (t : T) (m : N)
  /-- What a function of the interface does with the agent. -/
  | request (t : T) (a : AgentAction Q T R E)
  /-- A step of the worker of a session, or of others on its memory. -/
  | agent (session : ℕ) (a : AgentAction Q T R E)

namespace RuntimePc

/-- The thread owns `ReferenceCounterMutex`. -/
def locksCounter : RuntimePc → Bool
  | .check _ | .lockInstance _ | .create | .assign _ | .storeShutDown _ | .join _ | .destroy _
  | .assignNull | .unlockInstance _ | .count _ | .unlockCounter _ _ => true
  | .idle | .lockCounter _ | .isInitialized | .get | .inCall _ => false

/-- The thread owns `InstanceMutex`. -/
def locksInstance : RuntimePc → Bool
  | .create | .assign _ | .storeShutDown _ | .join _ | .destroy _ | .assignNull
  | .unlockInstance _ => true
  | _ => false

/-- What is done while both mutexes are owned: `new CPURuntime()`, or `delete Instance`. -/
def underLock : RuntimeCall → Option ℕ → RuntimePc
  | .init, _ => .create
  | .release, some k => .storeShutDown k
  | .release, none => .assignNull

/-- The thread is in a function of the interface other than the two that count. -/
def inApi : RuntimePc → Bool
  | .isInitialized | .get | .inCall _ => true
  | _ => false

end RuntimePc

/-- What a thread in a function of the interface may ask of the agent. -/
def AgentAction.isRequest {Q T R E : Type} [DecidableEq T] (t : T) : AgentAction Q T R E → Bool
  | .call c _ | .client c => c = t
  | .register _ | .destroy _ => true
  | .worker _ | .deliver | .shutDown | .environment _ => false

/-- What happens in the agent without a call. -/
def AgentAction.isOwn {Q T R E : Type} : AgentAction Q T R E → Bool
  | .worker _ | .deliver | .environment _ => true
  | .call _ _ | .client _ | .register _ | .destroy _ | .shutDown => false

/-- The worker has left `Execute`. -/
def Worker.isExited {Q L : Type} : Worker Q L → Bool
  | .exited => true
  | _ => false

/-- The agent that `CPUKernelAgent::CPUKernelAgent` constructs. The value of `ShutDown` is the one
that it finds. -/
def AgentState.start {Q T M L : Type} (shutDown : Bool) (m : M) : AgentState Q T M L where
  memory := m
  queues := []
  runningQueue := none
  interruptingTheQueue := false
  inactivated := fun _ => false
  destroyed := fun _ => false
  shutDown := shutDown
  worker := .landing
  client := fun _ => .idle
  pending := []
  setters := []
  returned := []

namespace RuntimeState

variable {Q T M L R E : Type} [DecidableEq Q] [DecidableEq T]

/-- The agent of a session, with the `ShutDown` that it looks at. -/
def session (s : RuntimeState Q T M L) (k : ℕ) : AgentState Q T M L :=
  { s.agent k with shutDown := s.shutDown }

/-- The thread `t` goes on to `pc`. -/
def goto (s : RuntimeState Q T M L) (t : T) (pc : RuntimePc) : RuntimeState Q T M L :=
  { s with thread := Function.update s.thread t pc }

/-- `++ReferenceCounter` or `--ReferenceCounter`. -/
def countCall (t : T) (s : RuntimeState Q T M L) : RuntimeCall → RuntimeState Q T M L
  | .init => { s with referenceCounter := s.referenceCounter + 1 }
  | .release =>
    { s with referenceCounter := s.referenceCounter - 1, releasing := s.releasing.erase t }

/-- `hsa_init` or `hsa_shut_down` is called. -/
def beginCall (t : T) (s : RuntimeState Q T M L) : RuntimeCall → RuntimeState Q T M L
  | .init => { s with history := .call t .init :: s.history }
  | .release =>
    { s with
      references := s.references - 1, releasing := insert t s.releasing
      history := .call t .release :: s.history }

/-- The call returns. -/
def returnCall (t : T) (s : RuntimeState Q T M L) : RuntimeCall → Bool → RuntimeState Q T M L
  | .init, ok =>
    { s with
      references := if ok then s.references + 1 else s.references
      history := .ret t .init ok :: s.history }
  | .release, ok =>
    { s with
      releasing := s.releasing.erase t, history := .ret t .release ok :: s.history }

/-- One step of a thread in `Runtime::initialize`, in `Runtime::release`, or on its way to the
runtime. -/
def threadStep (t : T) (m : M) (s : RuntimeState Q T M L) : Option (RuntimeState Q T M L) :=
  match s.thread t with
  | .idle | .inCall _ => none
  | .lockCounter call =>
    if s.referenceCounterMutex = none then
      some ({ s with referenceCounterMutex := some t }.goto t (.check call))
    else none
  | .check .init =>
    -- `std::numeric_limits<int32_t>::max()`
    if s.referenceCounter = 2147483647 then some (s.goto t (.unlockCounter .init false))
    else if s.referenceCounter = 0 then some (s.goto t (.lockInstance .init))
    else some (s.goto t (.count .init))
  | .check .release =>
    if s.referenceCounter = 0 then some (s.goto t (.unlockCounter .release false))
    else if s.referenceCounter = 1 then some (s.goto t (.lockInstance .release))
    else some (s.goto t (.count .release))
  | .lockInstance call =>
    if s.instanceMutex = none then
      some ({ s with instanceMutex := some t }.goto t (.underLock call s.runtime))
    else none
  | .create =>
    some ({ s with
      created := s.created + 1
      agent := Function.update s.agent s.created (.start s.shutDown m) }.goto t (.assign s.created))
  | .assign k => some ({ s with runtime := some k }.goto t (.unlockInstance .init))
  | .storeShutDown k => some ({ s with shutDown := true }.goto t (.join k))
  | .join k => if (s.agent k).worker.isExited then some (s.goto t (.destroy k)) else none
  | .destroy k =>
    some ({ s with destroyed := Function.update s.destroyed k true }.goto t .assignNull)
  | .assignNull => some ({ s with runtime := none }.goto t (.unlockInstance .release))
  | .unlockInstance call => some ({ s with instanceMutex := none }.goto t (.count call))
  | .count call => some ((s.countCall t call).goto t (.unlockCounter call true))
  | .unlockCounter call ok =>
    some ({ s.returnCall t call ok with referenceCounterMutex := none }.goto t .idle)
  | .isInitialized => some (s.goto t (if 0 < s.referenceCounter then .get else .idle))
  | .get => some (s.goto t (.inCall s.runtime))

end RuntimeState

namespace RuntimeState

/-! ## What a step of a thread does -/

variable {Q T M L : Type} [DecidableEq T]

section
variable (s : RuntimeState Q T M L) (t : T) (pc : RuntimePc)

@[simp] theorem thread_goto : (s.goto t pc).thread = Function.update s.thread t pc := rfl
@[simp] theorem toRuntimeSessions_goto :
    (s.goto t pc).toRuntimeSessions = s.toRuntimeSessions := rfl
@[simp] theorem referenceCounterMutex_goto :
    (s.goto t pc).referenceCounterMutex = s.referenceCounterMutex := rfl
@[simp] theorem instanceMutex_goto : (s.goto t pc).instanceMutex = s.instanceMutex := rfl
@[simp] theorem references_goto : (s.goto t pc).references = s.references := rfl
@[simp] theorem releasing_goto : (s.goto t pc).releasing = s.releasing := rfl
@[simp] theorem history_goto : (s.goto t pc).history = s.history := rfl

end

/-- The steps of a thread, from where it is, with what it has found. -/
inductive ThreadMove (t : T) (m : M) (s : RuntimeState Q T M L) :
    RuntimePc → RuntimeState Q T M L → Prop
  | lockCounter (call : RuntimeCall) (hfree : s.referenceCounterMutex = none) :
      ThreadMove t m s (.lockCounter call)
        ({ s with referenceCounterMutex := some t }.goto t (.check call))
  | overflow (hcount : s.referenceCounter = 2147483647) :
      ThreadMove t m s (.check .init) (s.goto t (.unlockCounter .init false))
  | creates (hcount : s.referenceCounter = 0) :
      ThreadMove t m s (.check .init) (s.goto t (.lockInstance .init))
  | shares (hmax : s.referenceCounter ≠ 2147483647) (hcount : s.referenceCounter ≠ 0) :
      ThreadMove t m s (.check .init) (s.goto t (.count .init))
  | none (hcount : s.referenceCounter = 0) :
      ThreadMove t m s (.check .release) (s.goto t (.unlockCounter .release false))
  | last (hcount : s.referenceCounter = 1) :
      ThreadMove t m s (.check .release) (s.goto t (.lockInstance .release))
  | more (hcount : 1 < s.referenceCounter) :
      ThreadMove t m s (.check .release) (s.goto t (.count .release))
  | lockInstance (call : RuntimeCall) (hfree : s.instanceMutex = none) :
      ThreadMove t m s (.lockInstance call)
        ({ s with instanceMutex := some t }.goto t (.underLock call s.runtime))
  | create : ThreadMove t m s .create
      ({ s with
        created := s.created + 1
        agent := Function.update s.agent s.created (.start s.shutDown m) }.goto t
          (.assign s.created))
  | assign (k : ℕ) : ThreadMove t m s (.assign k)
      ({ s with runtime := some k }.goto t (.unlockInstance .init))
  | storeShutDown (k : ℕ) :
      ThreadMove t m s (.storeShutDown k) ({ s with shutDown := true }.goto t (.join k))
  | join (k : ℕ) (hexited : (s.agent k).worker.isExited = true) :
      ThreadMove t m s (.join k) (s.goto t (.destroy k))
  | destroy (k : ℕ) : ThreadMove t m s (.destroy k)
      ({ s with destroyed := Function.update s.destroyed k true }.goto t .assignNull)
  | assignNull : ThreadMove t m s .assignNull
      ({ s with runtime := none }.goto t (.unlockInstance .release))
  | unlockInstance (call : RuntimeCall) : ThreadMove t m s (.unlockInstance call)
      ({ s with instanceMutex := none }.goto t (.count call))
  | count (call : RuntimeCall) :
      ThreadMove t m s (.count call) ((s.countCall t call).goto t (.unlockCounter call true))
  | unlockCounter (call : RuntimeCall) (ok : Bool) : ThreadMove t m s (.unlockCounter call ok)
      ({ s.returnCall t call ok with referenceCounterMutex := none }.goto t .idle)
  | initialized (hcount : 0 < s.referenceCounter) :
      ThreadMove t m s .isInitialized (s.goto t .get)
  | uninitialized (hcount : s.referenceCounter = 0) :
      ThreadMove t m s .isInitialized (s.goto t .idle)
  | get : ThreadMove t m s .get (s.goto t (.inCall s.runtime))

theorem threadMove {t : T} {m : M} {s s' : RuntimeState Q T M L}
    (hs : threadStep t m s = some s') : ThreadMove t m s (s.thread t) s' := by
  cases hpc : s.thread t with
  | idle | inCall _ => simp only [threadStep, hpc, reduceCtorEq] at hs
  | lockCounter call =>
    simp only [threadStep, hpc, Option.ite_none_right_eq_some, Option.some.injEq] at hs
    exact hs.2 ▸ .lockCounter call hs.1
  | check call =>
    cases call <;> simp only [threadStep, hpc] at hs <;> split at hs
    · cases hs; exact .overflow ‹_›
    · rename_i hmax
      split at hs <;> cases hs
      · exact .creates ‹_›
      · exact .shares hmax ‹_›
    · cases hs; exact .none ‹_›
    · split at hs <;> cases hs
      · exact .last ‹_›
      · exact .more (by omega)
  | lockInstance call =>
    simp only [threadStep, hpc, Option.ite_none_right_eq_some, Option.some.injEq] at hs
    exact hs.2 ▸ .lockInstance call hs.1
  | join k =>
    simp only [threadStep, hpc, Option.ite_none_right_eq_some, Option.some.injEq] at hs
    exact hs.2 ▸ .join k hs.1
  | isInitialized =>
    simp only [threadStep, hpc, Option.some.injEq] at hs
    subst hs
    by_cases hcount : 0 < s.referenceCounter
    · rw [if_pos hcount]; exact .initialized hcount
    · rw [if_neg hcount]; exact .uninitialized (by omega)
  | create | assign k | storeShutDown k | destroy k | assignNull | unlockInstance call
  | count call | unlockCounter call ok | get =>
    simp only [threadStep, hpc, Option.some.injEq] at hs
    subst hs
    constructor

end RuntimeState

open RuntimeState in
/-- The threads of a process that uses the runtime, and its agents. Before the first session there
is neither a runtime nor a worker. -/
def runtimeMachine {Q M L R E : Type} (T : Type) [DecidableEq Q] [DecidableEq T]
    (P : Processor Q M L R E) (init : M → Prop) :
    Machine (RuntimeState Q T M L) (RuntimeAction Q T {m : M // init m} R E) where
  init s := s.referenceCounter = 0 ∧ s.referenceCounterMutex = none ∧ s.instanceMutex = none ∧
    s.runtime = none ∧ s.created = 0 ∧ (∀ k, s.destroyed k = false) ∧ s.shutDown = false ∧
    (∀ t, s.thread t = .idle) ∧ s.references = 0 ∧ s.releasing = ∅ ∧ s.history = []
  step
    | .call t call, s =>
      if s.thread t = .idle then
        some ((s.beginCall t call).goto t (.lockCounter call))
      else none
    | .api t, s => if s.thread t = .idle then some (s.goto t .isInitialized) else none
    | .leave t, s =>
      match s.thread t with
      | .inCall none => some (s.goto t .idle)
      | .inCall (some k) =>
        if (s.agent k).client t = .idle then some (s.goto t .idle) else none
      | _ => none
    | .thread t m, s => threadStep t m.1 s
    | .request t a, s =>
      match s.thread t with
      | .inCall (some k) =>
        if a.isRequest t ∧ s.destroyed k = false then
          ((agentMachine T P init).step a (s.session k)).map fun g =>
            { s with agent := Function.update s.agent k g, shutDown := g.shutDown }
        else none
      | _ => none
    | .agent k a, s =>
      if a.isOwn ∧ k < s.created ∧ s.destroyed k = false then
        ((agentMachine T P init).step a (s.session k)).map fun g =>
          { s with agent := Function.update s.agent k g, shutDown := g.shutDown }
      else none

namespace RuntimeState

/-- The steps of the runtime. -/
inductive RuntimeMove {Q T M L R E : Type} [DecidableEq Q] [DecidableEq T]
    (P : Processor Q M L R E) (init : M → Prop) (s : RuntimeState Q T M L) :
    RuntimeAction Q T {m : M // init m} R E → RuntimeState Q T M L → Prop
  | call (t : T) (call : RuntimeCall) (hidle : s.thread t = .idle) :
      RuntimeMove P init s (.call t call) ((s.beginCall t call).goto t (.lockCounter call))
  | api (t : T) (hidle : s.thread t = .idle) :
      RuntimeMove P init s (.api t) (s.goto t .isInitialized)
  | leave (t : T) (i : Option ℕ) (hin : s.thread t = .inCall i)
      (hclient : ∀ k, i = some k → (s.agent k).client t = .idle) :
      RuntimeMove P init s (.leave t) (s.goto t .idle)
  | thread (t : T) (m : {m : M // init m}) (s' : RuntimeState Q T M L)
      (hs : threadStep t m.1 s = some s') : RuntimeMove P init s (.thread t m) s'
  | request (t : T) (k : ℕ) (a : AgentAction Q T R E) (g : AgentState Q T M L)
      (hin : s.thread t = .inCall (some k)) (ha : a.isRequest t = true)
      (halive : s.destroyed k = false)
      (hs : (agentMachine T P init).step a (s.session k) = some g) :
      RuntimeMove P init s (.request t a)
        { s with agent := Function.update s.agent k g, shutDown := g.shutDown }
  | agent (k : ℕ) (a : AgentAction Q T R E) (g : AgentState Q T M L) (ha : a.isOwn = true)
      (hk : k < s.created) (halive : s.destroyed k = false)
      (hs : (agentMachine T P init).step a (s.session k) = some g) :
      RuntimeMove P init s (.agent k a)
        { s with agent := Function.update s.agent k g, shutDown := g.shutDown }

theorem runtimeMove {Q T M L R E : Type} [DecidableEq Q] [DecidableEq T]
    {P : Processor Q M L R E} {init : M → Prop} {s s' : RuntimeState Q T M L}
    {a : RuntimeAction Q T {m : M // init m} R E}
    (hs : (runtimeMachine T P init).step a s = some s') : RuntimeMove P init s a s' := by
  cases a with
  | call t call =>
    simp only [runtimeMachine, Option.ite_none_right_eq_some, Option.some.injEq] at hs
    exact hs.2 ▸ .call t call hs.1
  | api t =>
    simp only [runtimeMachine, Option.ite_none_right_eq_some, Option.some.injEq] at hs
    exact hs.2 ▸ .api t hs.1
  | leave t =>
    simp only [runtimeMachine] at hs
    split at hs
    · cases hs
      exact .leave t none ‹_› (nofun)
    · rename_i k hin
      split at hs <;> cases hs
      rename_i hidle
      exact .leave t (some k) hin fun j hj => by cases hj; exact hidle
    · cases hs
  | thread t m => exact .thread t m s' hs
  | request t a =>
    simp only [runtimeMachine] at hs
    split at hs
    · rename_i k hin
      split at hs
      · rename_i hok
        obtain ⟨g, hg, rfl⟩ := Option.map_eq_some_iff.mp hs
        exact .request t k a g hin hok.1 hok.2 hg
      · cases hs
    · cases hs
  | agent k a =>
    simp only [runtimeMachine] at hs
    split at hs
    · rename_i hok
      obtain ⟨g, hg, rfl⟩ := Option.map_eq_some_iff.mp hs
      exact .agent k a g hok.1 hok.2.1 hok.2.2 hg
    · cases hs

end RuntimeState

end PhsaRuntime
