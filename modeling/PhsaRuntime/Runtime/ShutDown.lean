import PhsaRuntime.Runtime.References
import PhsaRuntime.Execute.ShutDown

/-!
# The last `hsa_shut_down` returns

The thread that gives back the last reference joins the worker with both mutexes owned. Nobody is
in a function of the interface then, so that all that happens to the session are the steps of its
worker, and those of others on its memory. The number of steps that the worker takes before it is
joined is known when the thread comes to the join.

## Main results

* `client_idle` — only a thread that works with a session is in a call of its agent.
* `shut_down_returns` — the bound, and that the worker is never held up.
-/

namespace PhsaRuntime

open RuntimeState

variable {Q T M L R E : Type} [DecidableEq Q] [DecidableEq T] {P : Processor Q M L R E}
  {init : M → Prop}

/-! ## Threads and clients -/

section Clients

variable {s s' : RuntimeState Q T M L} {a : RuntimeAction Q T {m : M // init m} R E}

/-- A client is idle until it is called. -/
theorem idle_step {a : AgentAction Q T R E} {g g' : AgentState Q T M L} {c : T}
    (hs : (agentMachine T P init).step a g = some g') (ha : ∀ q, a ≠ .call c q)
    (hidle : g.client c = .idle) : g'.client c = .idle := by
  have hset : ∀ {f : AgentState Q T M L} {d : T} (pc : Client Q), f.client = g.client →
      d ≠ c → (Agent.setClient f d pc).client c = .idle := by
    intro f d pc hf hd
    rw [client_setClient, if_neg (Ne.symm hd), hf, hidle]
  cases agentMove hs with
  | worker r _ hs => exact (workerEffect hs).client ▸ hidle
  | call d q => exact hset _ rfl fun heq => ha q (by rw [heq])
  | deliver => exact hidle
  | other => exact hidle
  | client d _ hs =>
    have hd : g.client d ≠ .idle → d ≠ c := fun hne heq => hne (heq ▸ hidle)
    cases clientMove hs with
    | refuse q hc | accept q hc | inactivate q hc | interrupt q hc | hit q hc hr | miss q hc hr
    | kill q hc | stay q hc | leave q hc hr | finish q found hc =>
      exact hset _ rfl (hd (by simp [hc]))

/-- Only a thread that works with a session is in a call of its agent. -/
def ClientInv (s : RuntimeState Q T M L) : Prop :=
  ∀ k < s.created, s.destroyed k = false → ∀ t, s.thread t ≠ .inCall (some k) →
    (s.agent k).client t = .idle

omit [DecidableEq Q] in
theorem ClientInv.goto (h : ClientInv s) {s₁ : RuntimeState Q T M L} {t : T} {pc : RuntimePc}
    (hthread : s₁.thread = s.thread)
    (hagent : ∀ k < s₁.created, s₁.destroyed k = false →
      (∀ u, (s₁.agent k).client u = .idle) ∨
        s₁.agent k = s.agent k ∧ k < s.created ∧ s.destroyed k = false)
    (ht : ∀ k < s.created, s.destroyed k = false → (s.agent k).client t = .idle) :
    ClientInv (s₁.goto t pc) := by
  intro k hk halive u hu
  rcases hagent k hk halive with hidle | ⟨heq, hk', halive'⟩
  · exact hidle u
  · rw [toRuntimeSessions_goto, heq]
    by_cases hut : u = t
    · exact hut ▸ ht k hk' halive'
    · exact h k hk' halive' u (by simpa [hut, hthread] using hu)

theorem ClientInv.agent_step (h : ClientInv s) {k : ℕ} {a : AgentAction Q T R E}
    {g : AgentState Q T M L} (hk : k < s.created) (halive : s.destroyed k = false)
    (hs : (agentMachine T P init).step a (s.session k) = some g)
    (ha : ∀ t q, a = .call t q → s.thread t = .inCall (some k)) :
    ClientInv { s with agent := Function.update s.agent k g, shutDown := g.shutDown } := by
  intro j hj hjalive u hu
  by_cases hjk : j = k
  · subst hjk
    simp only [Function.update_self]
    exact idle_step hs (fun q heq => hu (ha u q heq)) (h j hk halive u hu)
  · simpa [hjk] using h j hj hjalive u hu

omit [DecidableEq Q] in
theorem ClientInv.thread_step (h : ClientInv s) {t : T} {m : M}
    (hs : threadStep t m s = some s') : ClientInv s' := by
  have hmove := threadMove hs
  have ht : ∀ k < s.created, s.destroyed k = false → (s.agent k).client t = .idle := by
    intro k hk halive
    refine h k hk halive t fun hin => ?_
    rw [hin] at hmove
    cases hmove
  generalize s.thread t = pc at hmove
  cases hmove with
  | create =>
    refine h.goto rfl (fun k hk halive => ?_) ht
    by_cases hnew : k = s.created
    · exact .inl fun u => by simp [hnew, AgentState.start]
    · have hlt : k < s.created := by
        have hk' : k < s.created + 1 := hk
        omega
      exact .inr ⟨by simp [hnew], hlt, halive⟩
  | destroy j =>
    refine h.goto rfl (fun k hk halive => .inr ⟨rfl, hk, ?_⟩) ht
    by_cases hkj : k = j
    · simp [hkj] at halive
    · simpa [hkj] using halive
  | count call => cases call <;> exact h.goto rfl (fun k hk halive => .inr ⟨rfl, hk, halive⟩) ht
  | unlockCounter call ok =>
    cases call <;> exact h.goto rfl (fun k hk halive => .inr ⟨rfl, hk, halive⟩) ht
  | _ => exact h.goto rfl (fun k hk halive => .inr ⟨rfl, hk, halive⟩) ht

theorem ClientInv.step (h : ClientInv s) (hinv : Inv s)
    (hs : (runtimeMachine T P init).step a s = some s') : ClientInv s' := by
  cases runtimeMove hs with
  | call t call hidle =>
    have ht : ∀ k < s.created, s.destroyed k = false → (s.agent k).client t = .idle :=
      fun k hk halive => h k hk halive t (by simp [hidle])
    cases call <;> exact h.goto rfl (fun k hk halive => .inr ⟨rfl, hk, halive⟩) ht
  | api t hidle =>
    exact h.goto rfl (fun k hk halive => .inr ⟨rfl, hk, halive⟩)
      fun k hk halive => h k hk halive t (by simp [hidle])
  | leave t i hin hclient =>
    refine h.goto rfl (fun k hk halive => .inr ⟨rfl, hk, halive⟩) fun k hk halive => ?_
    by_cases hik : i = some k
    · exact hclient k hik
    · exact h k hk halive t (by simp [hin, hik])
  | thread t m _ hs => exact h.thread_step hs
  | request t k a g hin ha halive hg =>
    refine h.agent_step (hinv.known t k hin) halive hg ?_
    rintro u q rfl
    obtain rfl : u = t := by simpa [AgentAction.isRequest] using ha
    exact hin
  | agent k a g ha hk halive hg =>
    refine h.agent_step hk halive hg ?_
    rintro u q rfl
    cases ha

/-- Only a thread that works with a session is in a call of its agent. -/
theorem client_idle {ok : RuntimeState Q T M L → RuntimeAction Q T {m : M // init m} R E → Prop}
    (hr : (runtimeMachine T P init).Reachable ok s) : ClientInv s := by
  refine hr.induction (P := ClientInv) ?_ fun s a s' hr _ hs ih => ih.step (inv_of_reachable hr) hs
  rintro s ⟨-, -, -, -, hcreated, -⟩ k hk
  omega

end Clients

/-! ## The join -/

variable {cfg : Q → Config} {s s₀ s' : RuntimeState Q T (Memory Q) Job}
  {a : RuntimeAction Q T {m : Memory Q // m.Fresh} Reply (External Q)}
  {tr : List (RuntimeState Q T (Memory Q) Job ×
    RuntimeAction Q T {m : Memory Q // m.Fresh} Reply (External Q))} {t : T} {k : ℕ}

/-- A step of the worker of the session `k`. -/
def isWorkerOf {N : Type} (k : ℕ) : RuntimeAction Q T N Reply (External Q) → Bool
  | .agent j (.worker _) => j = k
  | _ => false

/-- The worker of the session has left `Execute`. -/
def Left (k : ℕ) (s : RuntimeState Q T (Memory Q) Job) : Prop :=
  k < s.created ∧ (s.agent k).worker.isExited = true

/-- It stays away. -/
theorem Left.step (h : Left k s) (hs : (processMachine T cfg).step a s = some s') :
    Left k s' ∧ isWorkerOf k a = false := by
  have hagent : ∀ {j : ℕ} {a : AgentAction Q T Reply (External Q)}
      {g : AgentState Q T (Memory Q) Job}, a ≠ .shutDown →
      (agentMachine T (processor cfg) Memory.Fresh).step a (s.session j) = some g →
      (Function.update s.agent j g k).worker.isExited = true := by
    intro j a g ha hg
    by_cases hkj : k = j
    · subst hkj
      rw [Function.update_self]
      rcases isExited_step hg ha with hkeep | hexit
      · exact hkeep.2.trans h.2
      · exact hexit.2.2.2
    · rw [Function.update_of_ne hkj]
      exact h.2
  cases runtimeMove hs with
  | call t call => cases call <;> exact ⟨h, rfl⟩
  | api | leave => exact ⟨h, rfl⟩
  | thread t m _ hs =>
    refine ⟨?_, rfl⟩
    have hmove := threadMove hs
    generalize s.thread t = pc at hmove
    cases hmove with
    | create => exact ⟨Nat.lt_succ_of_lt h.1, by simpa [h.1.ne] using h.2⟩
    | count call => cases call <;> exact h
    | unlockCounter call ok => cases call <;> exact h
    | _ => exact h
  | request t j a g hin ha halive hg =>
    refine ⟨⟨h.1, hagent ?_ hg⟩, rfl⟩
    rintro rfl
    cases ha
  | agent j a g ha hj halive hg =>
    refine ⟨⟨h.1, hagent ?_ hg⟩, ?_⟩
    · rintro rfl
      cases ha
    · cases a with
      | worker r =>
        simp only [isWorkerOf, decide_eq_false_iff_not]
        rintro rfl
        have hexited := h.2
        cases hw : (s.agent j).worker <;>
          simp [hw, Worker.isExited, agentMachine, Agent.workerStep, session] at hexited hg
      | _ => rfl

/-- The thread `t` waits for the worker of the session `k`, which is on its way out. -/
structure Joining (cfg : Q → Config) (t : T) (k : ℕ) (s : RuntimeState Q T (Memory Q) Job) :
    Prop where
  thread : s.thread t = .join k
  worker : (s.agent k).worker.isExited = false
  leaving : LeaveInv cfg (s.session k)
  reachable : (executeMachine T cfg).Reachable Machine.always (s.session k)

omit [DecidableEq Q] [DecidableEq T] in
/-- While the last reference is being given back, nobody has one. -/
theorem references_eq_zero (hinv : Inv s) (href : ReferenceInv s) (ht : s.thread t = .join k) :
    s.references = 0 ∧ ∀ u, (s.thread u).inApi = false := by
  have hses := hinv.session t
  rw [ht] at hses
  have hcard := Finset.card_pos.mpr ⟨t, (href.releasing t).mpr (by rw [ht]; rfl)⟩
  have hle := href.le
  have hone := hses.1
  have hzero : s.references = 0 := by omega
  refine ⟨hzero, fun u => ?_⟩
  by_contra hin
  have hheld := href.api u (by simpa using hin)
  omega

/-- **A step while the thread waits** is one of the session, or one of others that they are free
to take. -/
theorem Joining.step (h : Joining cfg t k s) (hinv : Inv s) (href : ReferenceInv s)
    (hok : KeepsReference s a) (hs : (processMachine T cfg).step a s = some s') :
    (Left k s' ∨ Joining cfg t k s') ∧
      exitLeft cfg (s'.session k) + (if isWorkerOf k a then 1 else 0) ≤
        exitLeft cfg (s.session k) := by
  obtain ⟨hzero, hapi⟩ := references_eq_zero hinv href h.thread
  have hlocks : (s.thread t).locksCounter = true := by rw [h.thread]; rfl
  have hses := hinv.session t
  rw [h.thread] at hses
  have hcurrent := hses.2.1
  have hk : k < s.created := hcurrent.last ▸ Nat.lt_succ_self k
  have hother : ∀ {u : T} {pc : RuntimePc}, s.thread u ≠ .join k →
      Function.update s.thread u pc t = .join k := by
    intro u pc hu
    rw [Function.update_of_ne fun heq : t = u => hu (heq ▸ h.thread)]
    exact h.thread
  cases runtimeMove hs with
  | call u call hidle =>
    have hu : s.thread u ≠ .join k := by simp [hidle]
    cases call <;>
      exact ⟨.inr ⟨hother hu, h.worker, h.leaving, h.reachable⟩, by simp [isWorkerOf]; rfl⟩
  | api u =>
    have hheld : 1 ≤ s.references := hok
    omega
  | leave u i hin =>
    have hnot := hapi u
    simp [hin, RuntimePc.inApi] at hnot
  | request u j a g hin =>
    have hnot := hapi u
    simp [hin, RuntimePc.inApi] at hnot
  | thread u m _ hs =>
    have hmove := threadMove hs
    by_cases hut : u = t
    · subst hut
      rw [h.thread] at hmove
      cases hmove with
      | join _ hexited => simp [h.worker] at hexited
    · have hout := hinv.others hlocks u hut
      have hnot := hapi u
      generalize hpc : s.thread u = pc at hmove
      rw [hpc] at hout hnot
      cases hmove with
      | lockCounter call hfree => simp [(hinv.counter t).mpr hlocks] at hfree
      | initialized | uninitialized | get => cases hnot
      | _ => cases hout
  | agent j a g ha hj halive hg =>
    obtain rfl := hcurrent.eq hj halive
    obtain ⟨hto, hleft⟩ := h.leaving.step h.reachable ha hg
    have hsession : ({ s with
        agent := Function.update s.agent j g, shutDown := g.shutDown } :
        RuntimeState Q T (Memory Q) Job).session j = g := by
      simp [session]
    rw [hsession]
    constructor
    · by_cases hexited : g.worker.isExited = true
      · exact .inl ⟨hj, by simpa using hexited⟩
      · refine .inr ⟨h.thread, by simpa using hexited, ?_, ?_⟩
        · rw [hsession]
          exact hto.resolve_left hexited
        · rw [hsession]
          exact h.reachable.step trivial hg
    · cases a with
      | worker r => simpa [isWorkerOf, isWorker] using hleft
      | _ => exact hleft

/-- While the last reference is given back, the steps of the worker are numbered. -/
theorem joining_run (hinv : Inv s₀) (href : ReferenceInv s₀)
    (h : Left k s₀ ∨ Joining cfg t k s₀)
    (hrun : ((processMachine T cfg).startingAt s₀).Run tr s)
    (hok : ∀ step ∈ tr, KeepsReference step.1 step.2) :
    Inv s ∧ ReferenceInv s ∧
      (Left k s ∧ (tr.countP fun step => isWorkerOf k step.2) ≤ exitLeft cfg (s₀.session k) ∨
        Joining cfg t k s ∧
          (tr.countP fun step => isWorkerOf k step.2) + exitLeft cfg (s.session k) ≤
            exitLeft cfg (s₀.session k)) := by
  induction hrun with
  | init hs =>
    cases hs
    exact ⟨hinv, href, h.imp (fun hl => ⟨hl, by simp⟩) fun hj => ⟨hj, by simp⟩⟩
  | @step tr s s' a hrun hs ih =>
    rw [List.forall_mem_cons] at hok
    obtain ⟨hinv', href', hto⟩ := ih hok.2
    have hs' : (processMachine T cfg).step a s = some s' := hs
    refine ⟨hinv'.step hs', href'.step hinv' hok.1 hs', ?_⟩
    rw [List.countP_cons]
    rcases hto with ⟨hleft, hcount⟩ | ⟨hjoin, hcount⟩
    · obtain ⟨hleft', hworker⟩ := hleft.step hs'
      exact .inl ⟨hleft', by simpa [hworker] using hcount⟩
    · obtain ⟨hnext, hdown⟩ := hjoin.step hinv' href' hok.1 hs'
      simp only at hdown ⊢
      rcases hnext with hleft | hjoin'
      · exact .inl ⟨hleft, by omega⟩
      · exact .inr ⟨hjoin', by omega⟩

theorem left_or_joining
    (hr : (processMachine T cfg).Reachable
      (fun s a => KeepsReference s a ∧ EachSession JumpsSafely s a) s)
    (hjoin : s.thread t = .join k) (hwaiting : (s.agent k).worker.waiting = false) :
    Left k s ∨ Joining cfg t k s := by
  have hinv := inv_of_reachable hr
  have href := referenceInv_of_reachable (hr.mono fun _ _ h => h.1)
  have hses := hinv.session t
  rw [hjoin] at hses
  obtain ⟨-, hcurrent, -, hflag⟩ := hses
  have hk : k < s.created := hcurrent.last ▸ Nat.lt_succ_self k
  by_cases hexited : (s.agent k).worker.isExited = true
  · exact .inl ⟨hk, hexited⟩
  · have hreach : (executeMachine T cfg).Reachable JumpsSafely (s.session k) :=
      agentRuns_of_reachable (hr.mono fun _ _ h => h.2) (fun _ => trivial) k hk hcurrent.alive
    refine .inr ⟨hjoin, by simpa using hexited, ?_, hreach.mono fun _ _ _ => trivial⟩
    have hset : s.shutDown = true := by simpa [hexited] using hflag
    refine leaveInv_of_reachable hreach hset (fun c => ?_) hwaiting
    refine client_idle hr k hk hcurrent.alive c fun hin => ?_
    have hnot := (references_eq_zero hinv href hjoin).2 c
    simp [hin, RuntimePc.inApi] at hnot

/-- **The last `hsa_shut_down` returns.** From the moment at which the thread that gives back the
last reference comes to `join`, the worker takes no more than a known number of steps, whatever the
other threads do; and as long as the thread waits, the worker can take its next step, or it has
left and the thread can go on. The clients keep a reference as long as they use the runtime, the
signals before were delivered at safe spots, and the worker is neither lost in its wait for a
signal nor in an access without a meaning. -/
theorem shut_down_returns
    (hr : (processMachine T cfg).Reachable
      (fun s a => KeepsReference s a ∧ EachSession JumpsSafely s a) s₀)
    (hjoin : s₀.thread t = .join k) (hwaiting : (s₀.agent k).worker.waiting = false)
    (hrun : ((processMachine T cfg).startingAt s₀).Run tr s)
    (hok : ∀ step ∈ tr, KeepsReference step.1 step.2) :
    (tr.countP fun step => isWorkerOf k step.2) ≤ exitLeft cfg (s₀.session k) ∧
      (s.thread t = .join k → (∀ q job, (s.agent k).worker ≠ .dead q job) →
        (∀ m, ((processMachine T cfg).step (.thread t m) s).isSome) ∨
          ∀ r, ((processMachine T cfg).step (.agent k (.worker r)) s).isSome) := by
  have href := referenceInv_of_reachable (hr.mono fun _ _ h => h.1)
  obtain ⟨hinv, -, hto⟩ :=
    joining_run (inv_of_reachable hr) href (left_or_joining hr hjoin hwaiting) hrun hok
  rcases hto with ⟨hleft, hcount⟩ | ⟨hj, hcount⟩
  · refine ⟨hcount, fun ht _ => .inl fun m => ?_⟩
    exact threadStep_isSome (by simp [ht, RuntimePc.left]) (by simp [ht]) (by simp [ht])
      fun j hpc => by cases ht.symm.trans hpc; exact hleft.2
  · refine ⟨(Nat.le_add_right _ _).trans hcount, fun _ hdead => .inr fun r => ?_⟩
    have hses := hinv.session t
    rw [hj.thread] at hses
    have hcurrent := hses.2.1
    have hk : k < s.created := hcurrent.last ▸ Nat.lt_succ_self k
    have henabled := hj.leaving.enabled hj.worker hdead r
    simp only [processMachine, runtimeMachine, AgentAction.isOwn, hk, hcurrent.alive, and_self,
      if_true, Option.isSome_map]
    exact henabled

/-- The last reference is given back while the worker is in a pass. -/
theorem shut_down_returns_pass : ∃ (s₀ s : RuntimeState Unit Bool (Memory Unit) Job)
    (tr : List (RuntimeState Unit Bool (Memory Unit) Job ×
      RuntimeAction Unit Bool {m : Memory Unit // m.Fresh} Reply (External Unit))),
    (s₀.agent 0).worker.inPass = true ∧ (s.agent 0).worker.isExited = true ∧
      (tr.countP fun step => isWorkerOf 0 step.2) ≤ exitLeft Exec.config (s₀.session 0) := by
  obtain ⟨s₀, hr, hp⟩ := Machine.exists_reachable_of_run (processMachine Bool Exec.config)
    (fun s a => KeepsReference s a ∧ EachSession JumpsSafely s a)
    ([.call true .init] ++ Process.thread Process.memory true 8 ++
      List.replicate 5 (.agent 0 (.worker Exec.reply)) ++ [.call true .release] ++
      Process.thread Process.memory true 4)
    (fun s => s.thread true = .join 0 && ((s.agent 0).worker.inPass &&
      (!(s.agent 0).worker.waiting && (((processMachine Bool Exec.config).startingAt s).trace
        ([.call false .init] ++ List.replicate 2 (.agent 0 (.worker Exec.reply))) [] s).any
          fun res => (res.2.agent 0).worker.isExited &&
            res.1.all fun step => KeepsReference step.1 step.2)))
    Process.init_start (by decide +kernel)
  simp only [Bool.and_eq_true, decide_eq_true_eq, Bool.not_eq_true'] at hp
  obtain ⟨hjoin, hin, hwaiting, htrace⟩ := hp
  obtain ⟨tr, s, hrun, hend⟩ := Machine.exists_run_of_trace
    ((processMachine Bool Exec.config).startingAt s₀) _
    (fun tr s => (s.agent 0).worker.isExited && tr.all fun step => KeepsReference step.1 step.2)
    rfl htrace
  simp only [Bool.and_eq_true, List.all_eq_true, decide_eq_true_eq] at hend
  exact ⟨s₀, s, tr, hin, hend.1, (shut_down_returns hr hjoin hwaiting hrun hend.2).1⟩

end PhsaRuntime
