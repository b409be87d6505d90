import PhsaRuntime.Lib.InsertAll
import PhsaRuntime.QueueCreation.Effect

/-!
# The limit on the queues of an agent

`hsa_queue_create` compares the limit with the length of the agent's list of queues. A queue
that is destroyed gets a flag and stays in the list, so that the length counts the queues that
have been created.

## Main results

* `agents_eq` — the list of an agent has the queues that were created, in order.
* `mem_liveQueues_iff`, `nodup_liveQueues` — the live queues are those whose flag is not set, each
  once.
* `queueLimit_iff` — a creation is refused at the limit of live queues if and only if fewer
  queues than the limit have been created, or as many are live.
-/

namespace PhsaRuntime

open Machine

variable {s s' : QueueState} {a : QueueAction} {status : HsaStatus}
  {tr : List (QueueState × QueueAction)} {agent this : ℕ} {args : QueueArgs}

/-! ## The history of the queues -/

/-- The queue that a call creates for the agent. -/
def QueueAction.created (agent : ℕ) : QueueAction → Option ℕ
  | .create args this _ => if args.agent = agent then some this else none
  | _ => none

/-- The queue that a call destroys. -/
def QueueAction.destroyed : QueueAction → Option ℕ
  | .destroy queue => some queue
  | _ => none

/-- The call returns `HSA_STATUS_SUCCESS`. -/
def succeeds (s : QueueState) (a : QueueAction) : Bool :=
  (queueCall s a).any fun result => result.1 = .success

/-- What the calls that succeed are about, first one first. -/
def successes (f : QueueAction → Option ℕ) : List (QueueState × QueueAction) → List ℕ
  | [] => []
  | (s, a) :: tr => successes f tr ++ if succeeds s a then (f a).toList else []

/-- The queues created for the agent. -/
def createdQueues (agent : ℕ) (tr : List (QueueState × QueueAction)) : List ℕ :=
  successes (QueueAction.created agent) tr

/-- The queues destroyed. -/
def destroyedQueues (tr : List (QueueState × QueueAction)) : List ℕ :=
  successes QueueAction.destroyed tr

/-- The queues of the agent that were created and not destroyed. -/
def liveQueues (agent : ℕ) (tr : List (QueueState × QueueAction)) : List ℕ :=
  (createdQueues agent tr).filter fun queue => queue ∉ destroyedQueues tr

/-- A creation is refused for the number of queues exactly if as many as the limit are live. -/
def LimitRight (tr : List (QueueState × QueueAction)) (s : QueueState) (args : QueueArgs) : Prop :=
  ∀ this allocated, (∃ s', s.hsaQueueCreate args this allocated = .ok (.errorOutOfResources, s')) ↔
    getQueuesMax ≤ (liveQueues args.agent tr).length

theorem successes_success {f : QueueAction → Option ℕ}
    (h : queueCall s a = some (.success, s')) :
    successes f ((s, a) :: tr) = successes f tr ++ (f a).toList := by
  simp [successes, succeeds, h]

theorem successes_refused {f : QueueAction → Option ℕ} (h : queueCall s a = some (status, s'))
    (hstatus : status ≠ .success) : successes f ((s, a) :: tr) = successes f tr := by
  simp [successes, succeeds, h, hstatus]

theorem step_queueEffect (h : queueMachine.step a s = some s') :
    ∃ status, queueCall s a = some (status, s') ∧ QueueEffect s a status s' := by
  obtain ⟨⟨status, t⟩, hcall, rfl⟩ := Option.map_eq_some_iff.mp h
  exact ⟨status, hcall, queueCall_effect hcall⟩

/-! ## The lists of the agents -/

theorem initialized_eq (hrun : queueMachine.Run tr s) : s.initialized = true := by
  induction hrun with
  | init hinit => exact hinit.1
  | step hrun hstep ih =>
    obtain ⟨status, -, heffect⟩ := step_queueEffect hstep
    cases heffect with
    | refused | destroyed => exact ih
    | created _ _ hnew | createdSoft _ hnew => exact hnew.initialized.trans ih
    | createdSignal hinitialized => exact hinitialized.trans ih

/-- **The list of an agent** has the queues that were created. -/
theorem agents_eq (hrun : queueMachine.Run tr s) {queues : List ℕ}
    (hagent : s.agents agent = some queues) : queues = createdQueues agent tr := by
  induction hrun generalizing queues with
  | init hinit => exact hinit.2.2.2 agent queues hagent
  | step hrun hstep ih =>
    obtain ⟨status, hcall, heffect⟩ := step_queueEffect hstep
    cases heffect with
    | refused a hstatus => exact (ih hagent).trans (successes_refused hcall hstatus).symm
    | @created args this allocated queues' q s' hfree hqueues hnew hid hagents =>
      rw [createdQueues, successes_success hcall, QueueAction.created]
      rw [hagents] at hagent
      by_cases heq : args.agent = agent
      · subst heq
        rw [Function.update_self, Option.some.injEq] at hagent
        rw [← hagent, ih hqueues, if_pos rfl]
        rfl
      · rw [Function.update_of_ne (Ne.symm heq)] at hagent
        rw [if_neg heq, ih hagent]
        simp [createdQueues]
    | createdSoft _ _ _ hagents | createdSignal _ hagents =>
      rw [hagents] at hagent
      rw [createdQueues, successes_success hcall, ih hagent]
      simp [createdQueues, QueueAction.created]
    | destroyed =>
      rw [createdQueues, successes_success hcall, ih hagent]
      simp [createdQueues, QueueAction.created]

theorem length_liveQueues_le (agent : ℕ) (tr : List (QueueState × QueueAction)) :
    (liveQueues agent tr).length ≤ (createdQueues agent tr).length :=
  List.length_filter_le ..

/-! ## The flags -/

/-- What the queues say about the calls so far. -/
structure Recorded (agent : ℕ) (tr : List (QueueState × QueueAction)) (s : QueueState) : Prop where
  id : ∀ this q, s.queues this = some q → q.id = this
  created : ∀ this, this ∈ createdQueues agent tr ↔
    ∃ q, s.queues this = some q ∧ q.owner = some agent
  destroyed : ∀ this, this ∈ destroyedQueues tr ↔
    ∃ q, s.queues this = some q ∧ q.destroyed = true
  nodup : (createdQueues agent tr).Nodup

/-- Another queue, of the agent or not. -/
theorem Recorded.newQueue {cb owner : Option ℕ} {q : UserModeQueue}
    (h : Recorded agent tr s) (hfree : s.queues this = none)
    (hnew : NewQueue this cb owner q s s') (hid : q.id = this)
    (hcreated : createdQueues agent ((s, a) :: tr) =
      createdQueues agent tr ++ if owner = some agent then [this] else [])
    (hdestroyed : destroyedQueues ((s, a) :: tr) = destroyedQueues tr) :
    Recorded agent ((s, a) :: tr) s' := by
  have hold : this ∉ createdQueues agent tr := by simp [h.created, hfree]
  constructor
  · intro x q' hq'
    rw [hnew.queues] at hq'
    rcases update_eq_some hq' with ⟨rfl, rfl⟩ | ⟨-, hq'⟩
    · exact hid
    · exact h.id x q' hq'
  · intro x
    rw [hcreated, List.mem_append, h.created, hnew.queues]
    by_cases hx : x = this
    · subst hx
      simp only [hfree, Function.update_self, Option.some.injEq, exists_eq_left', hnew.owner]
      split <;> simp_all
    · rw [Function.update_of_ne hx]
      split <;> simp [hx]
  · intro x
    rw [hdestroyed, h.destroyed, hnew.queues]
    by_cases hx : x = this
    · subst hx
      simp [hfree, hnew.destroyed]
    · rw [Function.update_of_ne hx]
  · rw [hcreated]
    split
    · exact List.nodup_append_comm.mp (List.nodup_cons.mpr ⟨hold, h.nodup⟩)
    · simpa using h.nodup

/-- The queues stay as they are. -/
theorem Recorded.same (h : Recorded agent tr s) (hqueues : s'.queues = s.queues)
    (hcreated : createdQueues agent ((s, a) :: tr) = createdQueues agent tr)
    (hdestroyed : destroyedQueues ((s, a) :: tr) = destroyedQueues tr) :
    Recorded agent ((s, a) :: tr) s' := by
  constructor
  · rw [hqueues]
    exact h.id
  · rw [hqueues, hcreated]
    exact h.created
  · rw [hqueues, hdestroyed]
    exact h.destroyed
  · rw [hcreated]
    exact h.nodup

/-- A flag is set. -/
theorem Recorded.setDestroyed {q : UserModeQueue} (h : Recorded agent tr s)
    (hq : s.queues this = some q)
    (hqueues : s'.queues = Function.update s.queues this (some { q with destroyed := true }))
    (hcreated : createdQueues agent ((s, a) :: tr) = createdQueues agent tr)
    (hdestroyed : destroyedQueues ((s, a) :: tr) = destroyedQueues tr ++ [this]) :
    Recorded agent ((s, a) :: tr) s' := by
  constructor
  · intro x q' hq'
    rw [hqueues] at hq'
    rcases update_eq_some hq' with ⟨rfl, rfl⟩ | ⟨-, hq'⟩
    · exact h.id x q hq
    · exact h.id x q' hq'
  · intro x
    rw [hcreated, h.created, hqueues]
    by_cases hx : x = this
    · subst hx
      simp [hq]
    · rw [Function.update_of_ne hx]
  · intro x
    rw [hdestroyed, List.mem_append, h.destroyed, hqueues]
    by_cases hx : x = this
    · subst hx
      simp
    · simp [hx]
  · rw [hcreated]
    exact h.nodup

theorem recorded (hrun : queueMachine.Run tr s) (agent : ℕ) : Recorded agent tr s := by
  induction hrun with
  | init hinit =>
    obtain ⟨-, -, hqueues, -⟩ := hinit
    constructor <;> simp [hqueues, createdQueues, destroyedQueues, successes]
  | step hrun hstep ih =>
    obtain ⟨status, hcall, heffect⟩ := step_queueEffect hstep
    cases heffect with
    | refused a hstatus =>
      exact ih.same rfl (successes_refused hcall hstatus) (successes_refused hcall hstatus)
    | created hfree hqueues hnew hid hagents =>
      apply ih.newQueue hfree hnew hid
      · simp only [createdQueues, successes_success hcall, QueueAction.created, Option.some.injEq]
        split <;> rfl
      · simp [destroyedQueues, successes_success hcall, QueueAction.destroyed]
    | createdSoft hfree hnew hid hagents =>
      apply ih.newQueue hfree hnew hid
      · simp [createdQueues, successes_success hcall, QueueAction.created]
      · simp [destroyedQueues, successes_success hcall, QueueAction.destroyed]
    | createdSignal _ _ hqueues =>
      apply ih.same hqueues
      · simp [createdQueues, successes_success hcall, QueueAction.created]
      · simp [destroyedQueues, successes_success hcall, QueueAction.destroyed]
    | @destroyed queue q q' hq hq' =>
      obtain rfl : q.id = queue := ih.id queue q hq
      apply ih.setDestroyed hq' rfl
      · simp [createdQueues, successes_success hcall, QueueAction.created]
      · simp [destroyedQueues, successes_success hcall, QueueAction.destroyed]

/-- **The live queues** are those of the agent whose flag is not set. -/
theorem mem_liveQueues_iff (hrun : queueMachine.Run tr s) : this ∈ liveQueues agent tr ↔
    ∃ q, s.queues this = some q ∧ q.owner = some agent ∧ q.destroyed = false := by
  have hrecorded := recorded hrun agent
  simp only [liveQueues, List.mem_filter, decide_eq_true_eq, hrecorded.created,
    hrecorded.destroyed]
  cases hq : s.queues this with
  | none => simp
  | some q => simp

theorem nodup_liveQueues (hrun : queueMachine.Run tr s) : (liveQueues agent tr).Nodup :=
  (recorded hrun agent).nodup.filter _

/-! ## The limit -/

/-- The comparison is with the number of queues that were created. -/
theorem outOfResources_iff (hrun : queueMachine.Run tr s) (hvalid : ValidArgs s args)
    (this : ℕ) (allocated : Allocated) :
    (∃ s', s.hsaQueueCreate args this allocated = .ok (.errorOutOfResources, s')) ↔
      getQueuesMax ≤ (createdQueues args.agent tr).length := by
  obtain ⟨queues, hqueues⟩ := Option.isSome_iff_exists.mp hvalid.agent
  rw [← agents_eq hrun hqueues, hsaQueueCreate_of_valid (initialized_eq hrun) hvalid hqueues]
  by_cases hlimit : getQueuesMax ≤ queues.length
  · simp [hlimit]
  · simp only [hlimit, if_false, iff_false, not_exists]
    intro s' h
    obtain ⟨t, -, h⟩ := exists_of_map_eq_ok h
    cases h

/-- **The queue limit counts live queues** if and only if fewer queues than the limit have been
created for the agent, or as many as the limit are live. -/
theorem queueLimit_iff (hrun : queueMachine.Run tr s) (hvalid : ValidArgs s args) :
    LimitRight tr s args ↔ (createdQueues args.agent tr).length < getQueuesMax ∨
      getQueuesMax ≤ (liveQueues args.agent tr).length := by
  simp only [LimitRight, outOfResources_iff hrun hvalid]
  have hle := length_liveQueues_le args.agent tr
  constructor
  · intro hright
    have h := hright 0 ⟨0, 0⟩
    omega
  · intro h _ _
    omega

/-- After one queue has been created and destroyed. -/
theorem limitRight_one : ∃ tr s, queueMachine.Run tr s ∧ ValidArgs s plainArgs ∧
    createdQueues 1 tr = [1] ∧ liveQueues 1 tr = [] ∧ LimitRight tr s plainArgs := by
  obtain ⟨tr, s, hrun, hs⟩ := exists_run_of_trace queueMachine
    [.create plainArgs 1 someMemory, .destroy 1]
    (fun tr s => (s.agents 1).isSome && createdQueues 1 tr = [1] && liveQueues 1 tr = [])
    init_emptyQueueState (by decide)
  simp only [Bool.and_eq_true, decide_eq_true_eq] at hs
  obtain ⟨⟨hagent, hcreated⟩, hlive⟩ := hs
  have hvalid : ValidArgs s plainArgs := ⟨by decide, by decide, hagent, rfl⟩
  refine ⟨tr, s, hrun, hvalid, hcreated, hlive, (queueLimit_iff hrun hvalid).mpr (.inl ?_)⟩
  rw [show plainArgs.agent = 1 from rfl, hcreated]
  decide

/-! ## Queues that are created and destroyed -/

/-- Below the limit a creation succeeds if there is memory. -/
theorem exists_create (hrun : queueMachine.Run tr s) (hvalid : ValidArgs s args)
    (hlimit : (createdQueues args.agent tr).length < getQueuesMax) (hthis : this ≠ 0)
    (hfree : s.queues this = none) :
    ∃ s', queueCall s (.create args this someMemory) = some (.success, s') := by
  obtain ⟨queues, hqueues⟩ := Option.isSome_iff_exists.mp hvalid.agent
  rw [← agents_eq hrun hqueues] at hlimit
  obtain ⟨t, ht⟩ : ∃ t, s.createUserModeQueue this args.size args.type s.globalRegion args.callback
      (some args.agent) none someMemory = .ok t :=
    exists_createUserModeQueue (by decide) (by decide)
  have hbusy : ¬ (this = 0 ∨ (s.queues this).isSome = true) := by simp [hthis, hfree]
  rw [queueCall, if_neg hbusy, hsaQueueCreate_of_valid (initialized_eq hrun) hvalid hqueues,
    if_neg (not_le.mpr hlimit), QueueState.createQueue, ht]
  exact ⟨_, rfl⟩

/-- A queue whose flag is not set can be destroyed. -/
theorem exists_destroy (hrun : queueMachine.Run tr s) (hthis : this ≠ 0) {q : UserModeQueue}
    (hq : s.queues this = some q) (hdestroyed : q.destroyed = false) :
    ∃ s', queueCall s (.destroy this) = some (.success, s') := by
  have hid : q.id = this := (recorded hrun 0).id this q hq
  simp [queueCall, QueueState.hsaQueueDestroy, QueueState.findQueue, initialized_eq hrun, hq, hid,
    hthis, hdestroyed]

/-- After `n` queues have been created by the agent at 1 and destroyed, one after the other. -/
structure Cycled (n : ℕ) (tr : List (QueueState × QueueAction)) (s : QueueState) : Prop where
  run : queueMachine.Run tr s
  created : (createdQueues 1 tr).length = n
  agent : (s.agents 1).isSome
  free : ∀ x, n < x → s.queues x = none
  destroyed : ∀ x q, s.queues x = some q → q.destroyed = true

namespace Cycled

variable {n : ℕ}

theorem validArgs (h : Cycled n tr s) : ValidArgs s plainArgs :=
  ⟨by decide, by decide, h.agent, rfl⟩

theorem liveQueues_eq_nil (h : Cycled n tr s) : liveQueues 1 tr = [] := by
  rw [List.eq_nil_iff_forall_not_mem]
  intro x hx
  obtain ⟨q, hq, -, hnot⟩ := (mem_liveQueues_iff h.run).mp hx
  rw [h.destroyed x q hq] at hnot
  cases hnot

/-- One more queue. -/
theorem next (h : Cycled n tr s) (hn : n < getQueuesMax) : ∃ tr' s', Cycled (n + 1) tr' s' := by
  have hthis : n + 1 ≠ 0 := n.succ_ne_zero
  have hfree : s.queues (n + 1) = none := h.free (n + 1) n.lt_succ_self
  obtain ⟨t, hcreate⟩ := exists_create h.run h.validArgs (h.created.trans_lt hn) hthis hfree
  have hrun := h.run.step (congrArg (Option.map Prod.snd) hcreate)
  cases queueCall_effect hcreate with
  | refused _ hstatus => exact absurd rfl hstatus
  | @created _ _ _ queues q _ _ hqueues hnew hid hagents =>
    have hq : t.queues (n + 1) = some q := by rw [hnew.queues, Function.update_self]
    obtain ⟨u, hdestroy⟩ := exists_destroy hrun hthis hq hnew.destroyed
    have hrun' := hrun.step (congrArg (Option.map Prod.snd) hdestroy)
    cases queueCall_effect hdestroy with
    | refused _ hstatus => exact absurd rfl hstatus
    | @destroyed _ q₁ q₂ hq₁ hq₂ =>
      obtain rfl : q = q₁ := Option.some.inj (hq.symm.trans hq₁)
      refine ⟨_, _, hrun', ?_, ?_, ?_, ?_⟩
      · have hcreated := h.created
        rw [createdQueues] at hcreated ⊢
        rw [successes_success hdestroy, successes_success hcreate]
        simp [hcreated, QueueAction.created, plainArgs]
      · change (t.agents 1).isSome
        simp [hagents, plainArgs]
      · intro x hx
        simp only [hid, hnew.queues, Function.update_idem]
        rw [Function.update_of_ne (by omega)]
        exact h.free x (by omega)
      · intro x q' hq'
        simp only [hid, hnew.queues, Function.update_idem] at hq'
        rcases update_eq_some hq' with ⟨-, rfl⟩ | ⟨-, hq'⟩
        · rfl
        · exact h.destroyed x q' hq'

end Cycled

theorem exists_cycled {n : ℕ} (h : n ≤ getQueuesMax) : ∃ tr s, Cycled n tr s := by
  induction n with
  | zero =>
    refine ⟨[], emptyQueueState, .init init_emptyQueueState, rfl, rfl, ?_, ?_⟩
    · intro x hx
      rfl
    · intro x q hq
      cases hq
  | succ n ih =>
    obtain ⟨tr, s, hcycled⟩ := ih (n.le_succ.trans h)
    exact hcycled.next h

/-- When as many queues as the limit have been created and destroyed, no other can be created. -/
theorem not_limitRight_cycled : ∃ tr s, queueMachine.Run tr s ∧ ValidArgs s plainArgs ∧
    liveQueues 1 tr = [] ∧ ¬ LimitRight tr s plainArgs := by
  obtain ⟨tr, s, hcycled⟩ := exists_cycled le_rfl
  have hlive := hcycled.liveQueues_eq_nil
  refine ⟨tr, s, hcycled.run, hcycled.validArgs, hlive, ?_⟩
  intro hright
  have hrefused := (outOfResources_iff hcycled.run hcycled.validArgs 0 ⟨0, 0⟩).mpr
    (ge_of_eq hcycled.created)
  have hlimit := (hright 0 ⟨0, 0⟩).mp hrefused
  rw [show plainArgs.agent = 1 from rfl, hlive] at hlimit
  simp [getQueuesMax] at hlimit

end PhsaRuntime
