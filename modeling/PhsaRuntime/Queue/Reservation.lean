import PhsaRuntime.Scan.Safety

/-!
# The reservation of packet indexes

Producers get their packet indexes through the write index, in one of three ways: by
`hsa_queue_add_write_index`, by a loop around `hsa_queue_cas_write_index`, or by
`hsa_queue_load_write_index` and a later `hsa_queue_store_write_index`. Here any number of threads
reserve any numbers of packets in any of these ways, next to the producers that write their
packets and to the worker.

Each index belongs to one thread if and only if no store has overwritten a reservation that it
did not know of (`StoresCurrent`). Then the queue behaves as if every index had been reserved by
an addition of one, and has the safety that was proved of those.

## Main results

* `reservations_exact_iff` — when the reservations are disjoint and without a gap.
* `submit_safe` — the safety of the queue.
* `cas_fails_iff` — a compare-and-swap fails if and only if another reservation has been made
  since the write index was loaded.
* `storesCurrent_of_sole` — one producer alone may use stores.
-/

namespace PhsaRuntime

open Machine

namespace Queue

/-! ## The write index -/

/-- `UserModeQueue::loadWriteIndex`. -/
def loadWriteIndex (q : Queue) : ℕ := q.writeIndex

/-- `UserModeQueue::storeWriteIndex`. -/
def storeWriteIndex (q : Queue) (value : ℕ) : Queue := { q with writeIndex := value }

/-- `UserModeQueue::addWriteIndex`: the old value, by `__atomic_fetch_add`. -/
def addWriteIndex (q : Queue) (increment : ℕ) : ℕ × Queue :=
  (q.writeIndex, { q with writeIndex := Word.wrap (q.writeIndex + increment) })

/-- `UserModeQueue::compareExchangeWriteIndex`: `__atomic_compare_exchange_n` writes the value it
finds to `ExpectedValue`, which is returned. -/
def compareExchangeWriteIndex (q : Queue) (expectedValue value : ℕ) : ℕ × Queue :=
  if q.writeIndex = expectedValue then (expectedValue, { q with writeIndex := value })
  else (q.writeIndex, q)

theorem addWriteIndex_eq {q : Queue} {increment : ℕ} (h : q.writeIndex + increment < 2 ^ 64) :
    q.addWriteIndex increment = (q.writeIndex, q.storeWriteIndex (q.writeIndex + increment)) := by
  rw [addWriteIndex, Word.wrap, Nat.mod_eq_of_lt h]
  rfl

theorem compareExchangeWriteIndex_self (q : Queue) (value : ℕ) :
    q.compareExchangeWriteIndex q.writeIndex value = (q.writeIndex, q.storeWriteIndex value) :=
  if_pos rfl

theorem compareExchangeWriteIndex_of_ne {q : Queue} {expectedValue : ℕ}
    (h : q.writeIndex ≠ expectedValue) (value : ℕ) :
    q.compareExchangeWriteIndex expectedValue value = (q.writeIndex, q) :=
  if_neg h

/-- The producers of some indexes start. -/
def markReserved (q : Queue) (first count : ℕ) : Queue :=
  { q with
    producer := fun i => if first ≤ i ∧ i < first + count then .reserved else q.producer i }

end Queue

/-! ## The machine -/

/-- Indexes that a thread has reserved. -/
structure Reserved (T : Type) where
  thread : T
  first : ℕ
  count : ℕ

/-- How far a thread has come in a reservation. -/
inductive Reserver
  | idle
  /-- The write index was `expected` when it was last read, after `since` reservations; the
  thread wants `count` indexes. -/
  | loaded (expected count since : ℕ)
  deriving DecidableEq, Repr

/-- A queue, the worker's position in it, and the threads that reserve indexes. -/
structure SubmitState (T : Type) where
  scan : ScanState
  reserver : T → Reserver
  /-- The reservations, in order. -/
  taken : List (Reserved T)

/-- The steps of the threads, and of everybody else. -/
inductive SubmitAction (T : Type)
  /-- `hsa_queue_add_write_index`. -/
  | add (t : T) (count : ℕ)
  /-- `hsa_queue_load_write_index`. -/
  | load (t : T) (count : ℕ)
  /-- `hsa_queue_cas_write_index` with the value that was read last. -/
  | cas (t : T)
  /-- `hsa_queue_store_write_index`. -/
  | store (t : T)
  /-- A step of a producer with its index, or of the worker. -/
  | scan (a : ScanAction)

variable {T : Type} [DecidableEq T] {cfg : Config}

/-- The thread `t` has reserved `count` indexes from `first` on. -/
def SubmitState.take (s : SubmitState T) (t : T) (first count : ℕ) (queue : Queue) :
    SubmitState T where
  scan := { s.scan with queue := queue.markReserved first count }
  reserver := Function.update s.reserver t .idle
  taken := s.taken ++ [{ thread := t, first, count }]

/-- The thread `t` has read the write index. -/
def SubmitState.read (s : SubmitState T) (t : T) (value count : ℕ) : SubmitState T :=
  { s with reserver := Function.update s.reserver t (.loaded value count s.taken.length) }

/-- The steps of a thread. Indexes do not wrap around `2 ^ 64`. -/
def reserveStep (t : T) (s : SubmitState T) : SubmitAction T → Option (SubmitState T)
  | .add _ count =>
    if s.reserver t = .idle ∧ 0 < count ∧ s.scan.queue.writeIndex + count < 2 ^ 64 then
      let res := s.scan.queue.addWriteIndex count
      some (s.take t res.1 count res.2)
    else none
  | .load _ count =>
    if s.reserver t = .idle ∧ 0 < count then some (s.read t s.scan.queue.loadWriteIndex count)
    else none
  | .cas _ => match s.reserver t with
    | .idle => none
    | .loaded expected count _ =>
      if expected + count < 2 ^ 64 then
        let res := s.scan.queue.compareExchangeWriteIndex expected (expected + count)
        -- the loop of the thread goes on with the value that is returned
        if res.1 = expected then some (s.take t expected count res.2)
        else some (s.read t res.1 count)
      else none
  | .store _ => match s.reserver t with
    | .idle => none
    | .loaded expected count _ =>
      if expected + count < 2 ^ 64 then
        some (s.take t expected count (s.scan.queue.storeWriteIndex (expected + count)))
      else none
  | .scan _ => none

/-- The thread that takes a step. -/
def SubmitAction.thread : SubmitAction T → Option T
  | .add t _ | .load t _ | .cas t | .store t => some t
  | .scan _ => none

/-- A queue with all its threads. All reservations are made by the threads. -/
def submitMachine (T : Type) [DecidableEq T] (cfg : Config) :
    Machine (SubmitState T) (SubmitAction T) where
  init s := (scanMachine cfg).init s.scan ∧ (∀ t, s.reserver t = .idle) ∧ s.taken = []
  step a s := match a with
    | .scan (.producer .reserve) => none
    | .scan a => ((scanMachine cfg).step a s.scan).map fun scan => { s with scan }
    | .add t _ | .load t _ | .cas t | .store t => reserveStep t s a

/-- The value that was read last. -/
def Reserver.expected : Reserver → Option ℕ
  | .idle => none
  | .loaded expected _ _ => some expected

theorem Reserver.eq_loaded {r : Reserver} {expected : ℕ} (h : expected ∈ r.expected) :
    ∃ count since, r = .loaded expected count since := by
  cases r with
  | idle => cases h
  | loaded e count since =>
    obtain rfl : e = expected := Option.some.inj h
    exact ⟨count, since, rfl⟩

/-- A store finds the value from which its own was computed. -/
def StoresCurrent (s : SubmitState T) : SubmitAction T → Prop
  | .store t => ∀ expected ∈ (s.reserver t).expected, s.scan.queue.writeIndex = expected
  | _ => True

instance (s : SubmitState T) : (a : SubmitAction T) → Decidable (StoresCurrent s a)
  | .store _ => inferInstanceAs (Decidable (∀ _ ∈ _, _))
  | .add _ _ | .load _ _ | .cas _ | .scan _ => .isTrue trivial

/-- The reserved indexes, one after the other. -/
def SubmitState.indexes (s : SubmitState T) : List ℕ :=
  s.taken.flatMap fun r => List.range' r.first r.count

/-- **The reservations are exact**: they are disjoint, without a gap, and end at the write
index. -/
def Exact (s : SubmitState T) : Prop := s.indexes = List.range s.scan.queue.writeIndex

instance (s : SubmitState T) : Decidable (Exact s) := inferInstanceAs (Decidable (_ = _))

/-! ## What a step does -/

/-- The steps, with what they have found. -/
inductive SubmitMove (cfg : Config) (s : SubmitState T) : SubmitAction T → SubmitState T → Prop
  /-- A reservation from the current write index on. -/
  | current (a : SubmitAction T) (t : T) (count : ℕ) (hthread : a.thread = some t)
      (hcount : (∃ since, s.reserver t = .loaded s.scan.queue.writeIndex count since) ∨ 0 < count)
      (hlt : s.scan.queue.writeIndex + count < 2 ^ 64) :
      SubmitMove cfg s a (s.take t s.scan.queue.writeIndex count
        (s.scan.queue.storeWriteIndex (s.scan.queue.writeIndex + count)))
  | store (t : T) (expected count since : ℕ) (ht : s.reserver t = .loaded expected count since)
      (hlt : expected + count < 2 ^ 64) :
      SubmitMove cfg s (.store t) (s.take t expected count
        (s.scan.queue.storeWriteIndex (expected + count)))
  | read (a : SubmitAction T) (t : T) (count : ℕ) (hthread : a.thread = some t)
      (hcount : (∃ expected since, s.reserver t = .loaded expected count since) ∨ 0 < count) :
      SubmitMove cfg s a (s.read t s.scan.queue.writeIndex count)
  | scan (a : ScanAction) (scan : ScanState) (hscan : (scanMachine cfg).step a s.scan = some scan)
      (hwrite : scan.queue.writeIndex = s.scan.queue.writeIndex) :
      SubmitMove cfg s (.scan a) { s with scan }

theorem writeIndex_producerStep {p : Queue.ProducerAction} {q q' : Queue}
    (hs : Queue.producerStep cfg p q = some q') (hp : p ≠ .reserve) :
    q'.writeIndex = q.writeIndex := by
  cases p with
  | reserve => exact absurd rfl hp
  | proceed | fill | publish | ring =>
    simp only [Queue.producerStep, Option.ite_none_right_eq_some, Option.some.injEq] at hs
    obtain ⟨-, rfl⟩ := hs
    rfl

theorem writeIndex_scan {a : ScanAction} {s s' : ScanState}
    (hs : (scanMachine cfg).step a s = some s') (ha : a ≠ .producer .reserve) :
    s'.queue.writeIndex = s.queue.writeIndex := by
  cases a with
  | producer p =>
    obtain ⟨q, hq, rfl⟩ := Option.map_eq_some_iff.mp hs
    exact writeIndex_producerStep hq fun hp => ha (hp ▸ rfl)
  | enter =>
    simp only [scanMachine] at hs
    split at hs <;> cases hs
    rfl
  | worker env =>
    obtain ⟨res, hres, rfl⟩ := Option.map_eq_some_iff.mp hs
    exact (workerStep_frame hres).writeIndex

theorem submitMove {s s' : SubmitState T} {a : SubmitAction T}
    (hs : (submitMachine T cfg).step a s = some s') : SubmitMove cfg s a s' := by
  cases a with
  | add t count =>
    simp only [submitMachine, reserveStep, Option.ite_none_right_eq_some, Option.some.injEq] at hs
    obtain ⟨⟨-, hcount, hlt⟩, rfl⟩ := hs
    rw [Queue.addWriteIndex_eq hlt]
    exact .current _ t count rfl (.inr hcount) hlt
  | load t count =>
    simp only [submitMachine, reserveStep, Option.ite_none_right_eq_some, Option.some.injEq] at hs
    obtain ⟨⟨-, hcount⟩, rfl⟩ := hs
    exact .read _ t count rfl (.inr hcount)
  | cas t =>
    cases ht : s.reserver t with
    | idle => simp [submitMachine, reserveStep, ht] at hs
    | loaded expected count since =>
      simp only [submitMachine, reserveStep, ht, Option.ite_none_right_eq_some] at hs
      obtain ⟨hlt, hs⟩ := hs
      by_cases heq : s.scan.queue.writeIndex = expected
      · subst heq
        rw [Queue.compareExchangeWriteIndex_self, if_pos rfl, Option.some.injEq] at hs
        subst hs
        exact .current _ t count rfl (.inl ⟨since, ht⟩) hlt
      · rw [Queue.compareExchangeWriteIndex_of_ne heq, if_neg heq, Option.some.injEq] at hs
        subst hs
        exact .read _ t count rfl (.inl ⟨expected, since, ht⟩)
  | store t =>
    cases ht : s.reserver t with
    | idle => simp [submitMachine, reserveStep, ht] at hs
    | loaded expected count since =>
      simp only [submitMachine, reserveStep, ht, Option.ite_none_right_eq_some,
        Option.some.injEq] at hs
      obtain ⟨hlt, rfl⟩ := hs
      exact .store t expected count since ht hlt
  | scan a =>
    by_cases ha : a = .producer .reserve
    · subst ha
      simp [submitMachine] at hs
    · have hscan : ((scanMachine cfg).step a s.scan).map (fun scan => { s with scan }) =
          some s' := by
        cases a with
        | producer p => cases p <;> first | exact absurd rfl ha | exact hs
        | _ => exact hs
      obtain ⟨scan, hstep, rfl⟩ := Option.map_eq_some_iff.mp hscan
      exact .scan a scan hstep (writeIndex_scan hstep ha)

/-! ## The reservations -/

omit [DecidableEq T] in
theorem exact_append {s : SubmitState T} (h : Exact s) (count : ℕ) :
    s.indexes ++ List.range' s.scan.queue.writeIndex count =
      List.range (s.scan.queue.writeIndex + count) := by
  rw [h, List.range_eq_range', List.range_eq_range', ← List.range'_append_1, Nat.zero_add]

theorem indexes_take (s : SubmitState T) (t : T) (first count : ℕ) (queue : Queue) :
    (s.take t first count queue).indexes = s.indexes ++ List.range' first count := by
  simp [SubmitState.take, SubmitState.indexes]

/-- **A step whose store is current** keeps the reservations exact. -/
theorem Exact.step {s s' : SubmitState T} {a : SubmitAction T} (h : Exact s)
    (hok : StoresCurrent s a) (hs : (submitMachine T cfg).step a s = some s') : Exact s' := by
  cases submitMove hs with
  | current a t count => exact (indexes_take s t _ count _).trans (exact_append h count)
  | store t expected count since ht =>
    obtain rfl := hok expected (by rw [ht]; rfl)
    exact (indexes_take s t _ count _).trans (exact_append h count)
  | read => exact h
  | scan a scan _ hwrite => exact h.trans (congrArg List.range hwrite.symm)

theorem exact_of_reachable {s : SubmitState T}
    (h : (submitMachine T cfg).Reachable StoresCurrent s) : Exact s := by
  refine h.induction (P := Exact) ?_ ?_
  · intro s hs
    obtain ⟨⟨⟨buffer, hqueue⟩, -⟩, -, htaken⟩ := hs
    simp [Exact, SubmitState.indexes, htaken, hqueue, Queue.create]
  · intro s a s' _ hok hs ih
    exact ih.step hok hs

/-- **The reservations stay exact if and only if** every store finds the value from which its own
was computed. -/
theorem reservations_exact_iff {tr : List (SubmitState T × SubmitAction T)} {s : SubmitState T}
    (hrun : (submitMachine T cfg).Run tr s) :
    (∀ t ∈ states tr s, Exact t) ↔ ∀ step ∈ tr, StoresCurrent step.1 step.2 := by
  constructor
  · intro hexact step hstep
    have hbefore : Exact step.1 :=
      hexact step.1 (List.mem_cons_of_mem _ (List.mem_map_of_mem hstep))
    obtain ⟨s', hs', hnext⟩ := hrun.exists_next hstep
    have hafter := hexact s' hs'
    cases ha : step.2 with
    | store t =>
      intro expected hexpected
      obtain ⟨count, since, ht⟩ := Reserver.eq_loaded hexpected
      rw [ha] at hnext
      simp only [submitMachine, reserveStep, ht, Option.ite_none_right_eq_some,
        Option.some.injEq] at hnext
      obtain ⟨-, rfl⟩ := hnext
      -- the lengths of what has been reserved
      have hlength := congrArg List.length ((indexes_take _ _ _ _ _).symm.trans hafter)
      rw [hbefore] at hlength
      simp [SubmitState.take, Queue.markReserved, Queue.storeWriteIndex] at hlength
      omega
    | _ => trivial
  · intro hok t ht
    exact exact_of_reachable (hrun.reachable_of_mem_states hok ht)

/-- A queue after its creation, with idle threads. -/
def Scan.submitStart (T : Type) : SubmitState T :=
  { scan := Scan.start, reserver := fun _ => .idle, taken := [] }

theorem Scan.init_submitStart (cfg : Config) :
    (submitMachine T cfg).init (Scan.submitStart T) :=
  ⟨Scan.init_start cfg, fun _ => rfl, rfl⟩

/-- Two threads load the write index and store: both have reserved index 0. -/
theorem reservations_exact_iff_lost :
    ∃ (tr : List (SubmitState Bool × SubmitAction Bool)) (s : SubmitState Bool),
      s.indexes = [0, 0, 1] ∧ ¬ ∀ t ∈ states tr s, Exact t := by
  obtain ⟨tr, s, hrun, hp⟩ := Machine.exists_run_of_trace
    (submitMachine Bool ⟨.multi, 2, by decide, by decide⟩)
    [.load false 1, .load true 2, .store false, .store true]
    (fun tr s => s.indexes = [0, 0, 1] && tr.any fun step => ¬ StoresCurrent step.1 step.2)
    (Scan.init_submitStart _) (by decide +kernel)
  simp only [Bool.and_eq_true, decide_eq_true_eq, List.any_eq_true] at hp
  obtain ⟨hindexes, step, hstep, hnot⟩ := hp
  refine ⟨tr, s, hindexes, fun hexact => hnot ?_⟩
  exact (reservations_exact_iff hrun).mp hexact step hstep

/-! ## The queue behind the reservations -/

/-- A reservation is that many additions of one. -/
theorem steps_reserve (q : Queue) (pc : Pc) {count : ℕ} (hlt : q.writeIndex + count < 2 ^ 64) :
    Relation.ReflTransGen
      (fun t t' => ∃ a, always t a ∧ (scanMachine cfg).step a t = some t') ⟨q, pc⟩
      ⟨(q.storeWriteIndex (q.writeIndex + count)).markReserved q.writeIndex count, pc⟩ := by
  induction count with
  | zero =>
    have hsame : (q.storeWriteIndex (q.writeIndex + 0)).markReserved q.writeIndex 0 = q := by
      have hnone : ∀ i, ¬ (q.writeIndex ≤ i ∧ i < q.writeIndex) := by
        intro i hi
        omega
      simp [Queue.markReserved, Queue.storeWriteIndex, hnone]
    rw [hsame]
  | succ count ih =>
    refine (ih (by omega)).tail ⟨.producer .reserve, trivial, ?_⟩
    have hnext : q.writeIndex + count + 1 < 2 ^ 64 := by omega
    simp only [scanMachine, Queue.producerStep, Queue.markReserved, Queue.storeWriteIndex, hnext,
      if_true, Option.map_some, Option.some.injEq, ScanState.mk.injEq, and_true]
    congr 1
    funext i
    simp only [Function.update_apply]
    by_cases hi : i = q.writeIndex + count
    · simp [hi]
    · have hiff : (q.writeIndex ≤ i ∧ i < q.writeIndex + (count + 1)) ↔
          (q.writeIndex ≤ i ∧ i < q.writeIndex + count) := by omega
      simp only [hi, if_false, hiff]

/-- **The queue with its threads refines the queue whose indexes are reserved one by one.** -/
theorem scan_reachable_of_submit {s : SubmitState T}
    (h : (submitMachine T cfg).Reachable StoresCurrent s) :
    (scanMachine cfg).Reachable always s.scan := by
  refine h.simulate_steps SubmitState.scan ?_ ?_
  · intro s hs
    exact hs.1
  intro s a s' _ hok hs
  cases submitMove hs with
  | current a t count _ _ hlt => exact steps_reserve s.scan.queue s.scan.pc hlt
  | store t expected count since ht hlt =>
    obtain rfl := hok expected (by rw [ht]; rfl)
    exact steps_reserve s.scan.queue s.scan.pc hlt
  | read => exact .refl
  | scan a scan hscan => exact .single ⟨a, trivial, hscan⟩

/-- **The queue is safe** in whichever way the threads reserve their indexes, as long as no store
overwrites a reservation, and each index is reserved once. -/
theorem submit_safe {s : SubmitState T} (h : (submitMachine T cfg).Reachable StoresCurrent s) :
    QueueSafe cfg s.scan ∧ Exact s :=
  ⟨(scanInv_of_reachable (scan_reachable_of_submit h)).queueSafe, exact_of_reachable h⟩

/-- An addition, a compare-and-swap that fails and is made again, and a packet that is
processed. -/
theorem submit_safe_cas : ∃ s : SubmitState Bool, s.indexes = [0, 1, 2] ∧
    s.scan.queue.history.processed = [0] ∧
      QueueSafe ⟨.multi, 2, by decide, by decide⟩ s.scan ∧ Exact s := by
  obtain ⟨s, hs, hp⟩ := Machine.exists_reachable_of_run
    (submitMachine Bool ⟨.multi, 2, by decide, by decide⟩) StoresCurrent
    ([.load true 2, .add false 1, .cas true, .cas true] ++
      (Scan.write 0 Scan.emptyPacket ++ [ScanAction.producer (.ring 0)] ++
        Scan.visit Scan.quietEnv 13).map SubmitAction.scan)
    (fun s => s.indexes = [0, 1, 2] && s.scan.queue.history.processed = [0])
    (Scan.init_submitStart _) (by decide +kernel)
  simp only [Bool.and_eq_true, decide_eq_true_eq] at hp
  exact ⟨s, hp.1, hp.2, submit_safe hs⟩

/-! ## One producer alone -/

/-- Only the thread `t` makes reservations. -/
def Sole (t : T) (_ : SubmitState T) (a : SubmitAction T) : Prop := ∀ t' ∈ a.thread, t' = t

instance (t : T) (s : SubmitState T) (a : SubmitAction T) : Decidable (Sole t s a) :=
  inferInstanceAs (Decidable (∀ t' ∈ a.thread, t' = t))

/-- What the one thread has read is the write index, and no other thread is in a reservation. -/
theorem current_of_sole {t : T} {s : SubmitState T}
    (h : (submitMachine T cfg).Reachable (Sole t) s) :
    ∀ t' expected count since, s.reserver t' = .loaded expected count since →
      t' = t ∧ s.scan.queue.writeIndex = expected := by
  refine h.induction (P := fun s => ∀ t' expected count since,
    s.reserver t' = .loaded expected count since →
      t' = t ∧ s.scan.queue.writeIndex = expected) ?_ ?_
  · intro s hs t' expected count since ht'
    rw [hs.2.1 t'] at ht'
    cases ht'
  · intro s a s' _ hok hs ih t' expected count since ht'
    have hidle : ∀ value, Function.update s.reserver t value t' = .loaded expected count since →
        t' ≠ t → False := by
      intro value hvalue hne
      rw [Function.update_of_ne hne] at hvalue
      exact hne (ih t' expected count since hvalue).1
    have htaken : Function.update s.reserver t .idle t' ≠ .loaded expected count since := by
      intro heq
      by_cases hne : t' = t
      · simp [hne] at heq
      · exact hidle _ heq hne
    cases submitMove hs with
    | current a t₁ count₁ hthread =>
      obtain rfl : t₁ = t := hok t₁ hthread
      exact absurd ht' htaken
    | store t₁ =>
      obtain rfl : t₁ = t := hok t₁ rfl
      exact absurd ht' htaken
    | read a t₁ count₁ hthread =>
      obtain rfl : t₁ = t := hok t₁ hthread
      by_cases hne : t' = t₁
      · subst hne
        simp only [SubmitState.read, Function.update_self, Reserver.loaded.injEq] at ht'
        exact ⟨rfl, ht'.1⟩
      · exact (hidle _ ht' hne).elim
    | scan a scan _ hwrite =>
      simp only [hwrite]
      exact ih t' expected count since ht'

/-- **One producer alone** may use stores: the queue is safe, and each index is reserved once. -/
theorem sole_producer_safe {t : T} {s : SubmitState T}
    (h : (submitMachine T cfg).Reachable (Sole t) s) : QueueSafe cfg s.scan ∧ Exact s := by
  suffices hcurrent : (submitMachine T cfg).Reachable StoresCurrent s from
    ⟨(scanInv_of_reachable (scan_reachable_of_submit hcurrent)).queueSafe,
      exact_of_reachable hcurrent⟩
  obtain ⟨tr, hrun, hok⟩ := h
  refine ⟨tr, hrun, fun step hstep => ?_⟩
  have hreach := hrun.reachable_of_mem hok hstep
  cases ha : step.2 with
  | store t' =>
    intro expected hexpected
    obtain ⟨count, since, ht'⟩ := Reserver.eq_loaded hexpected
    exact (current_of_sole hreach t' expected count since ht').2
  | _ => trivial

/-- The one producer of a SINGLE queue stores the write index for two packets. -/
theorem sole_producer_safe_store : ∃ s : SubmitState Bool, s.indexes = [0, 1] ∧
    QueueSafe ⟨.single, 2, by decide, by decide⟩ s.scan ∧ Exact s := by
  obtain ⟨s, hs, hp⟩ := Machine.exists_reachable_of_run
    (submitMachine Bool ⟨.single, 2, by decide, by decide⟩) (Sole true)
    ([.load true 2, .store true] ++ (Scan.write 0 Scan.emptyPacket).map SubmitAction.scan)
    (fun s => s.indexes = [0, 1]) (Scan.init_submitStart _) (by decide +kernel)
  exact ⟨s, of_decide_eq_true hp, sole_producer_safe hs⟩

/-! ## Compare-and-swap -/

/-- The number of indexes that are reserved by some reservations. -/
def total (taken : List (Reserved T)) : ℕ := (taken.map Reserved.count).sum

/-- What a thread has read is what had been reserved then. -/
structure LoadedInv (s : SubmitState T) : Prop where
  counts : ∀ r ∈ s.taken, 0 < r.count
  loaded : ∀ t expected count since, s.reserver t = .loaded expected count since →
    0 < count ∧ since ≤ s.taken.length ∧ expected = total (s.taken.take since)

omit [DecidableEq T] in
theorem writeIndex_eq_total {s : SubmitState T} (h : Exact s) :
    s.scan.queue.writeIndex = total s.taken := by
  have hlength := congrArg List.length h
  simpa [SubmitState.indexes, total, List.length_flatMap, Function.comp_def] using hlength.symm

/-- A reservation. -/
theorem LoadedInv.take {s : SubmitState T} (h : LoadedInv s) (t : T) (first : ℕ) {count : ℕ}
    (queue : Queue) (hcount : 0 < count) : LoadedInv (s.take t first count queue) := by
  constructor
  · intro r hr
    rcases List.mem_append.mp hr with hr | hr
    · exact h.counts r hr
    · obtain rfl := List.mem_singleton.mp hr
      exact hcount
  · intro t' expected count' since ht'
    simp only [SubmitState.take, Function.update_apply] at ht' ⊢
    split at ht'
    · cases ht'
    · obtain ⟨hpos, hle, heq⟩ := h.loaded t' expected count' since ht'
      refine ⟨hpos, by simp; omega, ?_⟩
      rw [List.take_append_of_le_length hle]
      exact heq

theorem loadedInv_of_reachable {s : SubmitState T}
    (h : (submitMachine T cfg).Reachable StoresCurrent s) : LoadedInv s := by
  refine h.induction (P := LoadedInv) ?_ ?_
  · intro s hs
    obtain ⟨-, hidle, htaken⟩ := hs
    exact ⟨by simp [htaken], by simp [hidle]⟩
  · intro s a s' hr hok hs ih
    cases submitMove hs with
    | current a t count _ hcount =>
      refine ih.take t _ _ ?_
      rcases hcount with ⟨since, ht⟩ | hcount
      · exact (ih.loaded t _ _ _ ht).1
      · exact hcount
    | store t expected count since ht => exact ih.take t _ _ (ih.loaded t _ _ _ ht).1
    | read a t count _ hcount =>
      refine ⟨ih.counts, fun t' expected count' since ht' => ?_⟩
      simp only [SubmitState.read, Function.update_apply] at ht' ⊢
      split at ht'
      · cases ht'
        refine ⟨?_, le_rfl, ?_⟩
        · rcases hcount with ⟨expected, since, ht⟩ | hcount
          · exact (ih.loaded t _ _ _ ht).1
          · exact hcount
        · rw [List.take_length]
          exact writeIndex_eq_total (exact_of_reachable hr)
      · exact ih.loaded t' expected count' since ht'
    | scan => exact ⟨ih.counts, ih.loaded⟩

/-- **A compare-and-swap fails if and only if another reservation has been made** since its thread
has read the write index: somebody else has made progress. -/
theorem cas_fails_iff {s : SubmitState T} (h : (submitMachine T cfg).Reachable StoresCurrent s)
    {t : T} {expected count since : ℕ} (ht : s.reserver t = .loaded expected count since) :
    (s.scan.queue.compareExchangeWriteIndex expected (expected + count)).1 ≠ expected ↔
      since < s.taken.length := by
  have hinv := loadedInv_of_reachable h
  obtain ⟨-, hle, heq⟩ := hinv.loaded t expected count since ht
  have hwrite := writeIndex_eq_total (exact_of_reachable h)
  have hsplit : total s.taken = expected + total (s.taken.drop since) := by
    rw [heq]
    simp only [total]
    rw [← List.sum_append, ← List.map_append, List.take_append_drop]
  have hfail : (s.scan.queue.compareExchangeWriteIndex expected (expected + count)).1 ≠ expected ↔
      0 < total (s.taken.drop since) := by
    by_cases hsame : s.scan.queue.writeIndex = expected
    · simp only [Queue.compareExchangeWriteIndex, hsame, if_true]
      omega
    · rw [Queue.compareExchangeWriteIndex_of_ne hsame]
      simp only [ne_eq, hsame, not_false_eq_true, true_iff]
      omega
  rw [hfail]
  constructor
  · intro hpos
    by_contra hge
    rw [List.drop_of_length_le (not_lt.mp hge)] at hpos
    simp [total] at hpos
  · intro hlt
    obtain ⟨r, rest, hdrop⟩ := List.exists_cons_of_ne_nil
      (List.ne_nil_of_length_pos (by simp only [List.length_drop]; omega) :
        s.taken.drop since ≠ [])
    have hr : r ∈ s.taken := List.mem_of_mem_drop (hdrop ▸ List.mem_cons_self)
    have hpos := hinv.counts r hr
    simp only [hdrop, total, List.map_cons, List.sum_cons]
    omega

/-- A thread whose load is followed by the addition of another one. -/
theorem cas_fails_iff_added : ∃ s : SubmitState Bool, s.indexes = [0] ∧
    (s.scan.queue.compareExchangeWriteIndex 0 (0 + 2)).1 ≠ 0 := by
  obtain ⟨s, hs, hp⟩ := Machine.exists_reachable_of_run
    (submitMachine Bool ⟨.multi, 2, by decide, by decide⟩) StoresCurrent
    [.load true 2, .add false 1]
    (fun s => s.indexes = [0] && s.reserver true = .loaded 0 2 0 && s.taken.length = 1)
    (Scan.init_submitStart _) (by decide +kernel)
  simp only [Bool.and_eq_true, decide_eq_true_eq] at hp
  obtain ⟨⟨hindexes, ht⟩, htaken⟩ := hp
  exact ⟨s, hindexes, (cas_fails_iff hs ht).mpr (by omega)⟩

end PhsaRuntime
