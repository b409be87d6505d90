import PhsaRuntime.Agent.Interrupt
import PhsaRuntime.Execute
import PhsaRuntime.QueueCreation.Effect

/-!
# Queue callbacks

A dispatch packet that cannot be launched is an event of its queue, and the callback that the
queue was created with is called: with the status, the queue and the application data of the
creation. The data goes no further than `hsa_queue_create`; what is passed to the callback is a
null pointer.

## Main results

* `callbacks_eq` — the callbacks of a queue in a run are for the events of its packets, one for
  each, in order.
* `callbacksRight_iff` — callbacks get the application data if and only if no event is on a queue
  with a callback and data that is not null.
-/

namespace PhsaRuntime

variable {Q C : Type} {env : Env} {cfg : Config}

/-! ## Events -/

/-- The status of the event at a step of the scan, if there is one. -/
def eventStatus (env : Env) (q : Queue) : Pc → List Status
  | .launch _ slot _ groupMemory =>
    match dispatch (env.kernel (q.packetBuffer slot).kernelObject) groupMemory
        (q.packetBuffer slot) with
    | .launch _ => []
    | .callback status => [status]
  | _ => []

/-- The event at a step of the worker in the processing of the queue `q`. -/
def event [DecidableEq Q] (q : Q) (s : ExecState Q C) : ExecAction Q C → List Status
  | .worker r =>
    match s.worker with
    | .process q' _ { ops := [], closing := _, pc } =>
      if q' = q then eventStatus (s.memory.env r) (s.memory.queue q) pc else []
    | _ => []
  | _ => []

/-- The events of the packets of `q`, first one first. -/
def events [DecidableEq Q] (q : Q) : List (ExecState Q C × ExecAction Q C) → List Status
  | [] => []
  | (s, a) :: tr => events q tr ++ event q s a

theorem callbacks_settle (env : Env) (q : Queue) (f : Frame) (slot : ℕ) (ok : Bool) :
    (settle env q f slot ok).1.history.callbacks = q.history.callbacks := by
  cases ok <;> rfl

/-- The launch step makes the callback. -/
theorem callbacks_launch {q q' : Queue} {f : Frame} {slot : ℕ} {completion : Option Handle}
    {groupMemory : Option ℕ} {pc' : Pc}
    (h : LaunchMove env q f slot completion groupMemory q' pc') :
    q'.history.callbacks =
      q.history.callbacks ++ eventStatus env q (.launch f slot completion groupMemory) := by
  cases h with
  | aligned k hk | moved k _ hk | aborted k hk =>
    simp only [eventStatus, hk]
    exact (List.append_nil _).symm
  | callback status hstatus => simp only [eventStatus, hstatus]

/-- A step of the scan makes a callback exactly if there is an event. -/
theorem callbacks_workerStep {q q' : Queue} {pc pc' : Pc}
    (h : workerStep cfg env q pc = some (q', pc')) :
    q'.history.callbacks = q.history.callbacks ++ eventStatus env q pc := by
  cases pc with
  | launch f slot completion groupMemory =>
    exact callbacks_launch (launchMove_step h)
  | barrier kind f slot i =>
    refine Eq.trans ?_ (List.append_nil _).symm
    cases evaluated_step h with
    | null | dead | undecided => rfl
    | decided | exhausted => exact callbacks_settle ..
  | sample | retired =>
    simp only [workerStep] at h
    split at h <;>
    · cases h
      exact (List.append_nil _).symm
  | away | halted => cases h
  | _ =>
    cases h
    exact (List.append_nil _).symm

/-! ## Runs -/

section

variable [DecidableEq Q] [DecidableEq C] {cfg : Q → Config} {s s' : ExecState Q C}
  {a : ExecAction Q C} {tr : List (ExecState Q C × ExecAction Q C)}

theorem callbacks_producerStep {c : Config} {p : Queue.ProducerAction} {q q' : Queue}
    (h : Queue.producerStep c p q = some q') : q'.history.callbacks = q.history.callbacks := by
  cases p <;> simp only [Queue.producerStep, Option.ite_none_right_eq_some,
    Option.some.injEq] at h <;> obtain ⟨-, rfl⟩ := h <;> rfl

omit [DecidableEq C] in
/-- A step in the processing of a queue. -/
theorem callbacks_work {r : Reply} {q q' : Q} {rest : List Q} {job : Job} {m : Memory Q}
    {p : Progress Job} (hw : s.worker = .process q' rest job)
    (hp : (processor cfg).work r q' job s.memory = some (m, p)) :
    (m.queue q).history.callbacks =
      (s.memory.queue q).history.callbacks ++ event q s (.worker r) := by
  cases jobMove hp with
  | op op ops closing pc locks happly => simp [event, hw]
  | scan closing pc pc' queue hstep =>
    simp only [event, hw]
    by_cases heq : q' = q
    · subst heq
      rw [if_pos rfl, Function.update_self]
      exact callbacks_workerStep hstep
    · rw [if_neg heq, Function.update_of_ne (Ne.symm heq), List.append_nil]

/-- Only the worker at a queue makes callbacks of the queue, and one for each event. -/
theorem callbacks_step (h : (executeMachine C cfg).step a s = some s') (q : Q) :
    (s'.memory.queue q).history.callbacks =
      (s.memory.queue q).history.callbacks ++ event q s a := by
  cases a with
  | worker r =>
    cases hw : s.worker with
    | process q' rest job =>
      simp only [executeMachine, agentMachine, Agent.workerStep, hw] at h
      obtain ⟨⟨m, p⟩, hp, rfl⟩ := Option.map_eq_some_iff.mp h
      exact callbacks_work hw hp
    | _ =>
      have hmemory : s'.memory = s.memory := memory_control h (by simp [hw])
      rw [hmemory]
      simp [event, hw]
  | environment e =>
    obtain ⟨m, he, rfl⟩ := Option.map_eq_some_iff.mp h
    refine Eq.trans ?_ (List.append_nil _).symm
    rcases (externalMove he).queue_cases q with heq | ⟨p, -, hqueue⟩
    · exact congrArg (fun x : Queue => x.history.callbacks) heq
    · exact callbacks_producerStep hqueue
  | _ =>
    have hmove := memoryMove h
    generalize s'.memory = m' at hmove ⊢
    generalize s'.worker = w' at hmove
    cases hmove
    all_goals exact (List.append_nil _).symm

/-- **The callbacks of a queue** are for the events of its packets, in order. -/
theorem callbacks_eq (hrun : (executeMachine C cfg).Run tr s) (q : Q) :
    (s.memory.queue q).history.callbacks = events q tr := by
  induction hrun with
  | init hinit =>
    obtain ⟨buffer, hq⟩ := hinit.1.1 q
    rw [hq]
    rfl
  | step hrun hstep ih => rw [callbacks_step hstep, ih, events]

end

/-! ## Invocations -/

/-- A queue that `hsa_queue_create` has made. -/
structure CreatedQueue where
  args : QueueArgs
  this : ℕ
  object : UserModeQueue
  created : ∃ (s : QueueState) (allocated : Allocated) (s' : QueueState),
    queueCall s (.create args this allocated) = some (.success, s') ∧
      s'.queues this = some object

namespace CreatedQueue

/-- The calls of the callback for the statuses. -/
def invocations (x : CreatedQueue) (statuses : List Status) : List Invocation :=
  statuses.filterMap (x.object.executeCallback x.this)

/-- The calls that the application asked for: with its own data. -/
def dueInvocations (x : CreatedQueue) (statuses : List Status) : List Invocation :=
  statuses.filterMap fun status =>
    x.args.callback.map fun callback =>
      { callback, status, source := x.this, data := x.args.data }

theorem cb_eq (x : CreatedQueue) : x.object.cb = x.args.callback := by
  obtain ⟨s, allocated, s', hcall, hobject⟩ := x.created
  cases queueCall_effect hcall with
  | refused _ hstatus => exact absurd rfl hstatus
  | created _ _ hnew =>
    rw [hnew.queues, Function.update_self, Option.some.injEq] at hobject
    rw [← hobject, hnew.cb]

/-- The callback gets a null pointer. -/
theorem executeCallback_eq (x : CreatedQueue) (status : Status) :
    x.object.executeCallback x.this status =
      x.args.callback.map fun callback => { callback, status, source := x.this, data := 0 } := by
  rw [UserModeQueue.executeCallback, x.cb_eq]

/-- The calls are those that the application asked for if and only if there are none, or the data
is null. -/
theorem invocations_eq_iff (x : CreatedQueue) (statuses : List Status) :
    x.invocations statuses = x.dueInvocations statuses ↔
      x.args.callback = none ∨ x.args.data = 0 ∨ statuses = [] := by
  simp only [invocations, dueInvocations, x.executeCallback_eq]
  cases x.args.callback with
  | none => simp
  | some callback =>
    cases statuses with
    | nil => simp
    | cons status statuses =>
      simp only [Option.map_some, reduceCtorEq, false_or, or_false]
      constructor
      · intro h
        have hhead := congrArg List.head? h
        simpa [eq_comm] using hhead
      · intro h
        rw [h]

end CreatedQueue

/-- Every callback in a run is for an event of its queue and with what the queue was created
with. -/
def CallbacksRight [DecidableEq Q] (queues : Q → CreatedQueue)
    (tr : List (ExecState Q C × ExecAction Q C)) (s : ExecState Q C) : Prop :=
  ∀ q, (queues q).invocations (s.memory.queue q).history.callbacks =
    (queues q).dueInvocations (events q tr)

/-- **Queue callbacks get the application data** if and only if no queue with a callback and data
that is not null has an event. -/
theorem callbacksRight_iff [DecidableEq Q] [DecidableEq C] {cfg : Q → Config}
    {tr : List (ExecState Q C × ExecAction Q C)} {s : ExecState Q C} (queues : Q → CreatedQueue)
    (hrun : (executeMachine C cfg).Run tr s) : CallbacksRight queues tr s ↔
      ∀ q, (queues q).args.callback = none ∨ (queues q).args.data = 0 ∨ events q tr = [] := by
  apply forall_congr'
  intro q
  rw [callbacks_eq hrun q]
  exact (queues q).invocations_eq_iff (events q tr)

/-! ## One event -/

/-- A dispatch packet without dimensions. -/
def invalidPacket : AQLPacket := { Scan.emptyPacket with setup := 0 }

/-- A callback that is at 16. -/
def callbackArgs (data : ℕ) : QueueArgs :=
  { plainArgs with size := 2, callback := some 16, data }

/-- The queue that is created with it. -/
def callbackQueue : UserModeQueue where
  owner := some 1
  cb := some 16
  size := 2
  type := 0
  baseAddress := 64
  doorbellSignal := 128
  isDoorbellOwned := true
  id := 1
  destroyed := false

theorem created_callbackQueue (data : ℕ) :
    ∃ s allocated s', queueCall s (.create (callbackArgs data) 1 allocated) = some (.success, s') ∧
      s'.queues 1 = some callbackQueue := by
  have hvalid : ValidArgs emptyQueueState (callbackArgs data) := by
    constructor <;> simp [callbackArgs, plainArgs, isSizeRejected, isSupportedQueueType,
      emptyQueueState]
  have hagent : emptyQueueState.agents (callbackArgs data).agent = some [] := rfl
  obtain ⟨s, hs, hqueue⟩ : ∃ s, emptyQueueState.createQueue 1 1 [] 2 0 (some 16) someMemory =
      .ok s ∧ (s.setId 1).queues 1 = some callbackQueue := ⟨_, rfl, rfl⟩
  have hcreate : emptyQueueState.hsaQueueCreate (callbackArgs data) 1 someMemory =
      .ok (.success, s.setId 1) := by
    rw [hsaQueueCreate_of_valid rfl hvalid hagent]
    exact congrArg (Except.map fun s => (HsaStatus.success, s.setId 1)) hs
  exact ⟨emptyQueueState, someMemory, s.setId 1, congrArg Except.toOption hcreate, hqueue⟩

/-- It, with its arguments. -/
def queueWithCallback (data : ℕ) : CreatedQueue where
  args := callbackArgs data
  this := 1
  object := callbackQueue
  created := created_callbackQueue data

/-- The worker comes to the packet. -/
theorem exists_event : ∃ (tr : List (ExecState Unit Unit × ExecAction Unit Unit))
    (s : ExecState Unit Unit), (executeMachine Unit Exec.config).Run tr s ∧
      events () tr = [.errorIncompatibleArguments] := by
  obtain ⟨tr, s, hrun, hp⟩ := Machine.exists_run_of_trace (executeMachine Unit Exec.config)
    ([.register ()] ++ Exec.submit () 0 invalidPacket ++ Exec.work 25)
    (fun tr _ => events () tr = [.errorIncompatibleArguments])
    (Exec.init_start _ fun _ => none) (by decide +kernel)
  exact ⟨tr, s, hrun, of_decide_eq_true hp⟩

/-- The data is a null pointer. -/
theorem callbacksRight_null : ∃ (tr : List (ExecState Unit Unit × ExecAction Unit Unit))
    (s : ExecState Unit Unit), events () tr = [.errorIncompatibleArguments] ∧
      CallbacksRight (fun _ => queueWithCallback 0) tr s := by
  obtain ⟨tr, s, hrun, hevents⟩ := exists_event
  have hnull : (queueWithCallback 0).args.data = 0 := rfl
  exact ⟨tr, s, hevents, (callbacksRight_iff _ hrun).mpr fun _ => .inr (.inl hnull)⟩

/-- The data is at 24. -/
theorem not_callbacksRight_data : ∃ (tr : List (ExecState Unit Unit × ExecAction Unit Unit))
    (s : ExecState Unit Unit), (executeMachine Unit Exec.config).Run tr s ∧
      ¬ CallbacksRight (fun _ => queueWithCallback 24) tr s := by
  obtain ⟨tr, s, hrun, hevents⟩ := exists_event
  refine ⟨tr, s, hrun, ?_⟩
  intro hright
  have hcalls := hright ()
  rw [callbacks_eq hrun, hevents, CreatedQueue.invocations_eq_iff] at hcalls
  simp [queueWithCallback, callbackArgs] at hcalls

end PhsaRuntime
