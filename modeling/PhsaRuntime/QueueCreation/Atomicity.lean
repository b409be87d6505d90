import PhsaRuntime.QueueCreation.Effect

/-!
# Creations without memory

`hsa_queue_create` and `hsa_soft_queue_create` look at the queue that the constructor made: they
return an error for a null pointer. The constructors never give one. They store to the memory
that they have asked for, whatever it is, so that the process ends where an allocation fails.

## Main results

* `FailedAllocation.eq_error` — the null pointer is dereferenced.
* `not_atomicCreation` — a creation whose allocation fails never returns an error.
-/

namespace PhsaRuntime

/-- The arguments of `hsa_soft_queue_create` are valid. -/
structure ValidSoftArgs (s : QueueState) (region size type doorbellSignal queue : ℕ) : Prop where
  type : type = 0 ∨ type = 1
  queue : queue ≠ 0
  size : isSizeRejected size = false
  doorbellSignal : (s.signals doorbellSignal).isSome
  region : (s.regions region).isSome

/-- Valid arguments are followed by the construction of the queue. -/
theorem hsaSoftQueueCreate_of_valid {s : QueueState} {this : ℕ} {allocated : Allocated}
    {region size type doorbellSignal queue : ℕ} (hinitialized : s.initialized = true)
    (hvalid : ValidSoftArgs s region size type doorbellSignal queue) :
    s.hsaSoftQueueCreate region size type doorbellSignal queue this allocated =
      (s.createUserModeQueue this size type region none none (some doorbellSignal) allocated).map
        fun s => (.success, s.setId this) := by
  obtain ⟨htype, hqueue, hsize, hsignal, hregion⟩ := hvalid
  have htype' : ¬ (type ≠ 0 ∧ type ≠ 1) := by omega
  simp only [QueueState.hsaSoftQueueCreate, hinitialized, htype', hqueue, hsize]
  rw [Option.isSome_iff_ne_none] at hsignal hregion
  simp [hsignal, hregion]

/-- The creations that pass the checks and get `NULL` from an allocation, with their results. -/
inductive FailedAllocation (s : QueueState) : Except Fault (HsaStatus × QueueState) → Prop
  | queue {args : QueueArgs} {this : ℕ} {allocated : Allocated} {queues : List ℕ} :
      s.initialized = true → ValidArgs s args → s.agents args.agent = some queues →
      queues.length < getQueuesMax → allocated.packetBuffer = 0 ∨ allocated.signalValue = 0 →
      FailedAllocation s (s.hsaQueueCreate args this allocated)
  | softQueue {region size type doorbellSignal queue this : ℕ} {allocated : Allocated} :
      s.initialized = true → ValidSoftArgs s region size type doorbellSignal queue →
      allocated.packetBuffer = 0 →
      FailedAllocation s
        (s.hsaSoftQueueCreate region size type doorbellSignal queue this allocated)
  | signal {initialValue : ℤ} {numConsumers consumers signal : ℕ} {allocated : Allocated} :
      s.initialized = true → signal ≠ 0 → (numConsumers > 0 → consumers ≠ 0) →
      allocated.signalValue = 0 →
      FailedAllocation s (s.hsaSignalCreate initialValue numConsumers consumers signal allocated)

/-- The call returns an error, and the queues, the signals and the memory are as before. -/
def AtomicCreation (s : QueueState) (result : Except Fault (HsaStatus × QueueState)) : Prop :=
  ∃ status s', result = .ok (status, s') ∧ status ≠ .success ∧ s'.agents = s.agents ∧
    s'.registry = s.registry ∧ s'.signals = s.signals ∧ s'.regions = s.regions

variable {s : QueueState} {result : Except Fault (HsaStatus × QueueState)} {allocated : Allocated}
  {this size type region : ℕ} {cb owner doorbell : Option ℕ}

/-- **The null pointer is dereferenced.** -/
theorem FailedAllocation.eq_error (h : FailedAllocation s result) :
    result = .error .nullPointer := by
  cases h with
  | queue hinitialized hvalid hqueues hlimit hmemory =>
    have hnull := hmemory.imp_right fun hvalue => And.intro (Eq.refl (none : Option ℕ)) hvalue
    rw [hsaQueueCreate_of_valid hinitialized hvalid hqueues, if_neg (not_le.mpr hlimit),
      QueueState.createQueue, createUserModeQueue_error hnull]
    rfl
  | softQueue hinitialized hvalid hmemory =>
    rw [hsaSoftQueueCreate_of_valid hinitialized hvalid, createUserModeQueue_error (.inl hmemory)]
    rfl
  | signal hinitialized hsignal hconsumers hmemory =>
    have hvalid : ¬ (_ = 0 ∨ _ ∧ _) := not_or.mpr ⟨hsignal, not_and.mpr hconsumers⟩
    simp only [QueueState.hsaSignalCreate, hinitialized, hvalid, QueueState.createSignal, hmemory]
    rfl

/-- **Creation is not atomic** when an allocation fails: the call does not return. -/
theorem not_atomicCreation (h : FailedAllocation s result) : ¬ AtomicCreation s result := by
  intro hatomic
  obtain ⟨status, s', hok, -⟩ := hatomic
  rw [h.eq_error] at hok
  cases hok

/-- No memory for the packets of the first queue. -/
theorem failedAllocation_plainArgs :
    FailedAllocation emptyQueueState (emptyQueueState.hsaQueueCreate plainArgs 1 ⟨0, 128⟩) :=
  .queue rfl ⟨by decide, by decide, rfl, rfl⟩ rfl (by decide) (.inl rfl)

theorem not_atomicCreation_plainArgs :
    ¬ AtomicCreation emptyQueueState (emptyQueueState.hsaQueueCreate plainArgs 1 ⟨0, 128⟩) :=
  not_atomicCreation failedAllocation_plainArgs

/-- A creation whose allocation fails is not always atomic. -/
theorem exists_not_atomicCreation :
    ¬ ∀ s result, FailedAllocation s result → AtomicCreation s result := by
  intro h
  obtain ⟨status, s', hok, -⟩ := h _ _ failedAllocation_plainArgs
  have hnull := failedAllocation_plainArgs.eq_error
  rw [hok] at hnull
  cases hnull

end PhsaRuntime
