import PhsaRuntime.QueueCreation

/-!
# What a call does to the queues

`QueueEffect` lists the calls that return, by their statuses. A call that is refused leaves the
state as it is, and every other call succeeds. Only a creation by an agent extends the list of
that agent, and nothing shortens it.

## Main results

* `queueCall_effect` — what a call does to the queues.
* `exists_createUserModeQueue`, `createUserModeQueue_error` — the constructor of a queue, with and
  without memory.
-/

namespace PhsaRuntime

/-- The queue `q` has been created at `this`. -/
structure NewQueue (this : ℕ) (cb owner : Option ℕ) (q : UserModeQueue) (s s' : QueueState) :
    Prop where
  initialized : s'.initialized = s.initialized
  queues : s'.queues = Function.update s.queues this (some q)
  cb : q.cb = cb
  owner : q.owner = owner
  destroyed : q.destroyed = false

/-- The calls that return. -/
inductive QueueEffect (s : QueueState) : QueueAction → HsaStatus → QueueState → Prop
  | refused (a : QueueAction) {status : HsaStatus} : status ≠ .success → QueueEffect s a status s
  | created {args : QueueArgs} {this : ℕ} {allocated : Allocated} {queues : List ℕ}
      {q : UserModeQueue} {s' : QueueState} : s.queues this = none →
      s.agents args.agent = some queues →
      NewQueue this args.callback (some args.agent) q s s' → q.id = this →
      s'.agents = Function.update s.agents args.agent (some (queues ++ [this])) →
      QueueEffect s (.create args this allocated) .success s'
  | createdSoft {region size type doorbellSignal queue this : ℕ} {allocated : Allocated}
      {q : UserModeQueue} {s' : QueueState} : s.queues this = none →
      NewQueue this none none q s s' → q.id = this → s'.agents = s.agents →
      QueueEffect s (.createSoft region size type doorbellSignal queue this allocated) .success s'
  | createdSignal {initialValue : ℤ} {numConsumers consumers signal : ℕ} {allocated : Allocated}
      {s' : QueueState} : s'.initialized = s.initialized → s'.agents = s.agents →
      s'.queues = s.queues →
      QueueEffect s (.createSignal initialValue numConsumers consumers signal allocated) .success s'
  | destroyed {queue : ℕ} {q q' : UserModeQueue} : s.queues queue = some q →
      s.queues q.id = some q' → q'.destroyed = false →
      QueueEffect s (.destroy queue) .success
        { s with queues := Function.update s.queues q.id (some { q' with destroyed := true }) }

/-- The arguments of `hsa_queue_create` are valid. -/
structure ValidArgs (s : QueueState) (args : QueueArgs) : Prop where
  queue : args.queue ≠ 0
  size : isSizeRejected args.size = false
  agent : (s.agents args.agent).isSome
  type : isSupportedQueueType args.type = true

variable {s s' : QueueState} {a : QueueAction} {status : HsaStatus} {args : QueueArgs}
  {allocated : Allocated} {this size type region value : ℕ} {cb owner doorbell : Option ℕ}
  {initialValue : ℤ}

/-- What a map of a result comes from. -/
theorem exists_of_map_eq_ok {ε α β : Type} {f : α → β} {x : Except ε α} {b : β}
    (h : x.map f = .ok b) : ∃ a, x = .ok a ∧ f a = b := by
  cases x with
  | error e => cases h
  | ok a => exact ⟨a, rfl, Except.ok.inj h⟩

theorem eq_ok_of_toOption {ε α : Type} {x : Except ε α} {a : α} (h : x.toOption = some a) :
    x = .ok a := by
  cases x with
  | error e => cases h
  | ok b => exact congrArg _ (Option.some.inj h)

/-! ## The constructors -/

/-- A signal is created if there is memory for its value. -/
theorem createSignal_ok (h : s.createSignal region value initialValue = .ok s') :
    value ≠ 0 ∧ s'.initialized = s.initialized ∧ s'.agents = s.agents ∧ s'.queues = s.queues := by
  simp only [QueueState.createSignal] at h
  split at h
  · cases h
  · rename_i hvalue
    cases h
    exact ⟨hvalue, rfl, rfl, rfl⟩

theorem createDoorbell_ok (h : s.createDoorbell region value doorbell = .ok s') :
    s'.initialized = s.initialized ∧ s'.agents = s.agents ∧ s'.queues = s.queues := by
  cases doorbell with
  | none => exact (createSignal_ok h).2
  | some d =>
    cases h
    exact ⟨rfl, rfl, rfl⟩

/-- The constructor of a queue leaves the lists of the agents as they are. -/
theorem createUserModeQueue_ok
    (h : s.createUserModeQueue this size type region cb owner doorbell allocated = .ok s') :
    s'.agents = s.agents ∧ ∃ q, NewQueue this cb owner q s s' := by
  simp only [QueueState.createUserModeQueue] at h
  split at h
  · cases h
  · obtain ⟨t, ht, rfl⟩ := exists_of_map_eq_ok h
    obtain ⟨hinitialized, hagents, hqueues⟩ := createDoorbell_ok ht
    have hupdate (q : Option UserModeQueue) :
        Function.update t.queues this q = Function.update s.queues this q := by
      rw [hqueues]
      rfl
    exact ⟨hagents, _, hinitialized, hupdate _, rfl, rfl, rfl⟩

/-- With memory for the packets and for the doorbell, the constructor of a queue returns. -/
theorem exists_createUserModeQueue (hbuffer : allocated.packetBuffer ≠ 0)
    (hvalue : allocated.signalValue ≠ 0) :
    ∃ s', s.createUserModeQueue this size type region cb owner doorbell allocated = .ok s' := by
  simp only [QueueState.createUserModeQueue, hbuffer, if_false]
  cases doorbell with
  | some d => exact ⟨_, rfl⟩
  | none =>
    simp only [QueueState.createDoorbell, QueueState.createSignal, hvalue, if_false]
    exact ⟨_, rfl⟩

/-- Without it the constructor dereferences a null pointer. -/
theorem createUserModeQueue_error
    (h : allocated.packetBuffer = 0 ∨ doorbell = none ∧ allocated.signalValue = 0) :
    s.createUserModeQueue this size type region cb owner doorbell allocated =
      .error .nullPointer := by
  simp only [QueueState.createUserModeQueue]
  rcases h with hbuffer | ⟨rfl, hvalue⟩
  · rw [if_pos hbuffer]
  · simp only [QueueState.createDoorbell, QueueState.createSignal, hvalue, if_true]
    split <;> rfl

/-- The address of a new queue is its `id`. -/
theorem NewQueue.setId {q : UserModeQueue} (h : NewQueue this cb owner q s s') :
    NewQueue this cb owner { q with id := this } s (s'.setId this) where
  initialized := h.initialized
  queues := by
    rw [QueueState.setId, h.queues, Function.update_self, Function.update_idem]
    rfl
  cb := h.cb
  owner := h.owner
  destroyed := h.destroyed

/-! ## The calls -/

/-- `hsa_queue_create` is refused, or creates the queue for the agent. -/
theorem hsaQueueCreate_effect (hfree : s.queues this = none)
    (h : s.hsaQueueCreate args this allocated = .ok (status, s')) :
    QueueEffect s (.create args this allocated) status s' := by
  simp only [QueueState.hsaQueueCreate] at h
  split at h
  · cases h
    exact .refused _ (by simp)
  · split at h
    · cases h
      exact .refused _ (by simp)
    · split at h
      · cases h
        exact .refused _ (by simp)
      · rename_i queues hagent
        split at h
        · cases h
          exact .refused _ (by simp)
        · split at h
          · cases h
            exact .refused _ (by simp)
          · obtain ⟨t, ht, heq⟩ := exists_of_map_eq_ok h
            cases heq
            obtain ⟨u, hu, rfl⟩ := exists_of_map_eq_ok ht
            obtain ⟨hagents, q, hq⟩ := createUserModeQueue_ok hu
            have hnew : NewQueue this args.callback (some args.agent) q s
                { u with
                  agents := Function.update u.agents args.agent (some (queues ++ [this])) } :=
              ⟨hq.initialized, hq.queues, hq.cb, hq.owner, hq.destroyed⟩
            refine .created hfree hagent hnew.setId rfl ?_
            rw [← hagents]
            rfl

/-- Valid arguments are followed by the check of the limit. -/
theorem hsaQueueCreate_of_valid (hinitialized : s.initialized = true) (hvalid : ValidArgs s args)
    {queues : List ℕ} (hqueues : s.agents args.agent = some queues) :
    s.hsaQueueCreate args this allocated =
      if getQueuesMax ≤ queues.length then .ok (.errorOutOfResources, s)
      else (s.createQueue this args.agent queues args.size args.type args.callback allocated).map
        fun s => (.success, s.setId this) := by
  simp [QueueState.hsaQueueCreate, hinitialized, hvalid.queue, hvalid.size, hqueues, hvalid.type]

/-- `hsa_soft_queue_create` is refused, or creates a queue without an agent. -/
theorem hsaSoftQueueCreate_effect {doorbellSignal queue : ℕ} (hfree : s.queues this = none)
    (h : s.hsaSoftQueueCreate region size type doorbellSignal queue this allocated =
      .ok (status, s')) :
    QueueEffect s (.createSoft region size type doorbellSignal queue this allocated) status s' := by
  simp only [QueueState.hsaSoftQueueCreate] at h
  split at h
  · cases h
    exact .refused _ (by simp)
  · split at h
    · cases h
      exact .refused _ (by simp)
    · split at h
      · cases h
        exact .refused _ (by simp)
      · split at h
        · cases h
          exact .refused _ (by simp)
        · obtain ⟨t, ht, heq⟩ := exists_of_map_eq_ok h
          cases heq
          obtain ⟨hagents, q, hq⟩ := createUserModeQueue_ok ht
          exact .createdSoft hfree hq.setId rfl hagents

/-- `hsa_signal_create` leaves the queues as they are. -/
theorem hsaSignalCreate_effect {numConsumers consumers signal : ℕ}
    (h : s.hsaSignalCreate initialValue numConsumers consumers signal allocated =
      .ok (status, s')) :
    QueueEffect s (.createSignal initialValue numConsumers consumers signal allocated) status
      s' := by
  simp only [QueueState.hsaSignalCreate] at h
  split at h
  · cases h
    exact .refused _ (by simp)
  · split at h
    · cases h
      exact .refused _ (by simp)
    · obtain ⟨t, ht, heq⟩ := exists_of_map_eq_ok h
      cases heq
      obtain ⟨-, hinitialized, hagents, hqueues⟩ := createSignal_ok ht
      exact .createdSignal hinitialized hagents hqueues

/-- `hsa_queue_destroy` is refused, or sets the flag of the queue. -/
theorem hsaQueueDestroy_effect {queue : ℕ} (h : s.hsaQueueDestroy queue = some (status, s')) :
    QueueEffect s (.destroy queue) status s' := by
  simp only [QueueState.hsaQueueDestroy] at h
  split at h
  · cases h
    exact .refused _ (by simp)
  · split at h
    · cases h
      exact .refused _ (by simp)
    · obtain ⟨id, hid, h⟩ := Option.bind_eq_some_iff.mp h
      obtain ⟨q, hq, rfl⟩ := Option.map_eq_some_iff.mp hid
      split at h
      · cases h
        exact .refused _ (by simp)
      · obtain ⟨q', hq', h⟩ := Option.map_eq_some_iff.mp h
        split at h
        · cases h
          exact .refused _ (by simp)
        · rename_i hdestroyed
          cases h
          exact .destroyed hq hq' (by simpa using hdestroyed)

/-- **What a call does to the queues.** -/
theorem queueCall_effect (h : queueCall s a = some (status, s')) : QueueEffect s a status s' := by
  cases a with
  | create args this allocated =>
    simp only [queueCall] at h
    split at h
    · cases h
    · rename_i hfree
      apply hsaQueueCreate_effect (by simpa using (not_or.mp hfree).2)
      exact eq_ok_of_toOption h
  | createSoft region size type doorbellSignal queue this allocated =>
    simp only [queueCall] at h
    split at h
    · cases h
    · rename_i hfree
      apply hsaSoftQueueCreate_effect (by simpa using (not_or.mp hfree).2)
      exact eq_ok_of_toOption h
  | createSignal initialValue numConsumers consumers signal allocated =>
    exact hsaSignalCreate_effect (eq_ok_of_toOption h)
  | destroy queue => exact hsaQueueDestroy_effect h

end PhsaRuntime
