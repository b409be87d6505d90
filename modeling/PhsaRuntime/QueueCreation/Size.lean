import Mathlib.Data.Nat.Prime.Basic
import PhsaRuntime.Lib.InsertAll
import PhsaRuntime.Lib.Ring
import PhsaRuntime.QueueCreation.Atomicity

/-!
# The sizes of queues

A size is checked by `size == 0 || size & (size - 1) != 0`, where the comparison binds first, so
that the last bit of the size is tested unless the size is 1. Odd sizes are refused and all other
even ones are accepted. The slot of an index is its remainder by the size, and the indexes wrap
around at 2⁶⁴, which only a power of two divides.

## Main results

* `isSizeRejected_eq_false_iff` — the sizes that are accepted.
* `size_accepted` — the sizes of the queues that there are.
* `queue_size_iff` — the sizes that are checked as documented, and those whose queues have
  different slots for the indexes of a window.
-/

namespace PhsaRuntime

open Machine

/-- The calls with valid arguments apart from the size get past the check of the arguments exactly
if the size is a power of two. -/
structure SizeChecked (size : ℕ) : Prop where
  create : ∀ (s : QueueState) args this allocated, s.initialized = true → args.queue ≠ 0 →
    (s.agents args.agent).isSome → isSupportedQueueType args.type = true → args.size = size →
    (s.hsaQueueCreate args this allocated ≠ .ok (.errorInvalidArgument, s) ↔ size.isPowerOfTwo)
  createSoft : ∀ (s : QueueState) region type doorbellSignal queue this allocated,
    s.initialized = true → type = 0 ∨ type = 1 → queue ≠ 0 → (s.signals doorbellSignal).isSome →
    (s.regions region).isSome →
    (s.hsaSoftQueueCreate region size type doorbellSignal queue this allocated ≠
      .ok (.errorInvalidArgument, s) ↔ size.isPowerOfTwo)

/-- In every queue of this size, as many consecutive indexes have different slots. -/
def SlotsDistinct (size : ℕ) : Prop :=
  ∀ tr s this q, queueMachine.Run tr s → s.queues this = some q → q.size = size →
    ∀ start < 2 ^ 64, ∀ i j, i < j → j < size →
      Word.wrap (start + i) % q.size ≠ Word.wrap (start + j) % q.size

variable {s s' : QueueState} {status : HsaStatus} {args : QueueArgs} {allocated : Allocated}
  {tr : List (QueueState × QueueAction)} {this size type region : ℕ}
  {cb owner doorbell : Option ℕ} {q : UserModeQueue}

/-! ## The check -/

/-- Every even size is accepted, and 1. -/
theorem isSizeRejected_eq_false_iff :
    isSizeRejected size = false ↔ size = 1 ∨ size ≠ 0 ∧ size % 2 = 0 := by
  by_cases hone : size - 1 = 0
  · have hcases : size = 0 ∨ size = 1 := by omega
    rcases hcases with rfl | rfl <;> decide
  · have hne : size ≠ 1 := by omega
    have hpos : size ≠ 0 := by omega
    simp [isSizeRejected, hone, hne, hpos, Nat.and_one_is_mod]

theorem isPowerOfTwo_iff_dvd (h : size < 2 ^ 32) : size.isPowerOfTwo ↔ size ∣ 2 ^ 64 := by
  rw [Nat.dvd_prime_pow Nat.prime_two]
  constructor
  · rintro ⟨k, rfl⟩
    have hk : k < 32 := (Nat.pow_lt_pow_iff_right (by decide)).mp h
    exact ⟨k, by omega, rfl⟩
  · rintro ⟨k, -, rfl⟩
    exact ⟨k, rfl⟩

/-- The powers of two are accepted. -/
theorem isSizeRejected_of_isPowerOfTwo (h : size.isPowerOfTwo) : isSizeRejected size = false := by
  obtain ⟨k, rfl⟩ := h
  rw [isSizeRejected_eq_false_iff]
  cases k with
  | zero => exact .inl rfl
  | succ k => exact .inr ⟨by positivity, by rw [Nat.pow_succ]; omega⟩

/-- The check is right about a size. -/
theorem accepted_iff_isPowerOfTwo_iff :
    (isSizeRejected size = false ↔ size.isPowerOfTwo) ↔
      size = 0 ∨ size % 2 = 1 ∨ size.isPowerOfTwo := by
  by_cases hpow : size.isPowerOfTwo
  · simp [hpow, isSizeRejected_of_isPowerOfTwo hpow]
  · have hone : size ≠ 1 := by
      rintro rfl
      exact hpow Nat.isPowerOfTwo_one
    simp only [hpow, iff_false, or_false, isSizeRejected_eq_false_iff, hone, false_or]
    omega

/-- `hsa_queue_create` refuses its arguments for the size only. -/
theorem hsaQueueCreate_passes_iff (hinitialized : s.initialized = true) (hqueue : args.queue ≠ 0)
    (hagent : (s.agents args.agent).isSome) (htype : isSupportedQueueType args.type = true) :
    s.hsaQueueCreate args this allocated ≠ .ok (.errorInvalidArgument, s) ↔
      isSizeRejected args.size = false := by
  cases hsize : isSizeRejected args.size with
  | true => simp [QueueState.hsaQueueCreate, hinitialized, hsize]
  | false =>
    obtain ⟨queues, hqueues⟩ := Option.isSome_iff_exists.mp hagent
    rw [hsaQueueCreate_of_valid hinitialized ⟨hqueue, hsize, hagent, htype⟩ hqueues]
    refine ⟨fun _ => rfl, fun _ h => ?_⟩
    split at h
    · cases h
    · obtain ⟨t, -, ht⟩ := exists_of_map_eq_ok h
      cases ht

theorem hsaSoftQueueCreate_passes_iff {doorbellSignal queue : ℕ}
    (hinitialized : s.initialized = true) (htype : type = 0 ∨ type = 1) (hqueue : queue ≠ 0)
    (hsignal : (s.signals doorbellSignal).isSome) (hregion : (s.regions region).isSome) :
    s.hsaSoftQueueCreate region size type doorbellSignal queue this allocated ≠
      .ok (.errorInvalidArgument, s) ↔ isSizeRejected size = false := by
  cases hsize : isSizeRejected size with
  | true =>
    have htype' : ¬ (type ≠ 0 ∧ type ≠ 1) := by omega
    simp [QueueState.hsaSoftQueueCreate, hinitialized, hsize, htype']
  | false =>
    rw [hsaSoftQueueCreate_of_valid hinitialized ⟨htype, hqueue, hsize, hsignal, hregion⟩]
    refine ⟨fun _ => rfl, fun _ h => ?_⟩
    obtain ⟨t, -, ht⟩ := exists_of_map_eq_ok h
    cases ht

/-! ## The queues that there are -/

/-- A queue has the size that it is created with. -/
theorem createUserModeQueue_size
    (h : s.createUserModeQueue this size type region cb owner doorbell allocated = .ok s') :
    ∃ q : UserModeQueue, s'.queues = Function.update s.queues this (some q) ∧ q.size = size := by
  simp only [QueueState.createUserModeQueue] at h
  split at h
  · cases h
  · obtain ⟨t, ht, rfl⟩ := exists_of_map_eq_ok h
    obtain ⟨-, -, hqueues⟩ := createDoorbell_ok ht
    exact ⟨_, congrArg (Function.update · this _) hqueues, rfl⟩

/-- The sizes of the queues were accepted. -/
def SizesAccepted (s : QueueState) : Prop :=
  ∀ this q, s.queues this = some q → isSizeRejected q.size = false

theorem SizesAccepted.update (h : SizesAccepted s) {t : QueueState}
    (hqueues : t.queues = Function.update s.queues this (some q))
    (hsize : isSizeRejected q.size = false) : SizesAccepted t := by
  intro x q' hq'
  rw [hqueues] at hq'
  rcases update_eq_some hq' with ⟨-, rfl⟩ | ⟨-, hq'⟩
  · exact hsize
  · exact h x q' hq'

/-- The queue at an address gets its `id`. -/
theorem SizesAccepted.setId (h : SizesAccepted s) : SizesAccepted (s.setId this) := by
  cases hq : s.queues this with
  | none =>
    have hqueues : (s.setId this).queues = s.queues := by
      rw [QueueState.setId, hq, Option.map_none, ← hq, Function.update_eq_self]
    intro x q hx
    rw [hqueues] at hx
    exact h x q hx
  | some q =>
    have hqueues : (s.setId this).queues =
        Function.update s.queues this (some { q with id := this }) := by
      rw [QueueState.setId, hq]
      rfl
    exact h.update hqueues (h this q hq)

theorem SizesAccepted.hsaQueueCreate (h : SizesAccepted s)
    (hcall : s.hsaQueueCreate args this allocated = .ok (status, s')) : SizesAccepted s' := by
  simp only [QueueState.hsaQueueCreate] at hcall
  split at hcall
  · cases hcall
    exact h
  · split at hcall
    · cases hcall
      exact h
    · rename_i hargs
      obtain ⟨-, haccepted⟩ : args.queue ≠ 0 ∧ isSizeRejected args.size = false := by
        simpa using hargs
      split at hcall
      · cases hcall
        exact h
      · split at hcall
        · cases hcall
          exact h
        · split at hcall
          · cases hcall
            exact h
          · obtain ⟨t, ht, heq⟩ := exists_of_map_eq_ok hcall
            cases heq
            obtain ⟨u, hu, rfl⟩ := exists_of_map_eq_ok ht
            obtain ⟨q, hqueues, hsize⟩ := createUserModeQueue_size hu
            apply (h.update (t := { u with agents := _ }) hqueues ?_).setId
            rw [hsize]
            exact haccepted

theorem SizesAccepted.hsaSoftQueueCreate (h : SizesAccepted s) {doorbellSignal queue : ℕ}
    (hcall : s.hsaSoftQueueCreate region size type doorbellSignal queue this allocated =
      .ok (status, s')) : SizesAccepted s' := by
  simp only [QueueState.hsaSoftQueueCreate] at hcall
  split at hcall
  · cases hcall
    exact h
  · split at hcall
    · cases hcall
      exact h
    · split at hcall
      · cases hcall
        exact h
      · rename_i hargs
        obtain ⟨-, haccepted⟩ : queue ≠ 0 ∧ isSizeRejected size = false := by simpa using hargs
        split at hcall
        · cases hcall
          exact h
        · obtain ⟨t, ht, heq⟩ := exists_of_map_eq_ok hcall
          cases heq
          obtain ⟨q, hqueues, hsize⟩ := createUserModeQueue_size ht
          apply (h.update hqueues ?_).setId
          rw [hsize]
          exact haccepted

theorem SizesAccepted.step {a : QueueAction} (h : SizesAccepted s)
    (hstep : queueMachine.step a s = some s') : SizesAccepted s' := by
  obtain ⟨⟨status, t⟩, hcall, rfl⟩ := Option.map_eq_some_iff.mp hstep
  cases a with
  | create args this allocated =>
    simp only [queueCall] at hcall
    split at hcall
    · cases hcall
    · exact h.hsaQueueCreate (eq_ok_of_toOption hcall)
  | createSoft region size type doorbellSignal queue this allocated =>
    simp only [queueCall] at hcall
    split at hcall
    · cases hcall
    · exact h.hsaSoftQueueCreate (eq_ok_of_toOption hcall)
  | createSignal initialValue numConsumers consumers signal allocated =>
    cases queueCall_effect hcall with
    | refused => exact h
    | createdSignal _ _ hqueues => exact fun x q hq => h x q (hqueues ▸ hq)
  | destroy queue =>
    cases queueCall_effect hcall with
    | refused => exact h
    | @destroyed _ q q' _ hq' => exact h.update rfl (h q.id q' hq')

/-- **The sizes of the queues** that there are in a run were accepted. -/
theorem size_accepted (hrun : queueMachine.Run tr s) : SizesAccepted s := by
  induction hrun with
  | init hinit =>
    intro x q hq
    rw [hinit.2.2.1] at hq
    cases hq
  | step _ hstep ih => exact ih.step hstep

/-- There is a queue of every size that is accepted. -/
theorem exists_queue (hsize : isSizeRejected size = false) :
    ∃ tr s this q, queueMachine.Run tr s ∧ s.queues this = some q ∧ q.size = size := by
  have hqueue : plainArgs.queue ≠ 0 := by decide
  have hvalid : ValidArgs emptyQueueState { plainArgs with size } := ⟨hqueue, hsize, rfl, rfl⟩
  have hcall : emptyQueueState.hsaQueueCreate { plainArgs with size } 1 someMemory = _ :=
    hsaQueueCreate_of_valid rfl hvalid rfl
  rw [if_neg (by decide)] at hcall
  have hstep : queueMachine.step (.create { plainArgs with size } 1 someMemory) emptyQueueState =
      ((QueueState.hsaQueueCreate { plainArgs with size } 1 someMemory
        emptyQueueState).toOption).map Prod.snd := rfl
  rw [hcall] at hstep
  exact ⟨_, _, 1, _, .step (.init init_emptyQueueState) hstep, rfl, rfl⟩

/-! ## The sizes -/

theorem sizeChecked_iff : SizeChecked size ↔ (isSizeRejected size = false ↔ size.isPowerOfTwo) := by
  constructor
  · intro h
    have hqueue : plainArgs.queue ≠ 0 := by decide
    rw [← h.create emptyQueueState { plainArgs with size } 1 someMemory rfl hqueue rfl rfl rfl]
    exact Iff.symm (hsaQueueCreate_passes_iff rfl hqueue rfl rfl)
  · intro h
    constructor
    case create =>
      intro s args this allocated hinitialized hqueue hagent htype hsize
      rw [hsaQueueCreate_passes_iff hinitialized hqueue hagent htype, hsize, h]
    case createSoft =>
      intro s region type doorbellSignal queue this allocated hinitialized htype hqueue hsignal
        hregion
      rw [hsaSoftQueueCreate_passes_iff hinitialized htype hqueue hsignal hregion, h]

theorem slotsDistinct_iff (h : size < 2 ^ 32) :
    SlotsDistinct size ↔ (isSizeRejected size = false → size.isPowerOfTwo) := by
  constructor
  · intro hslots haccepted
    obtain ⟨tr, s, this, q, hrun, hq, hsize⟩ := exists_queue haccepted
    have hpos : 0 < size := by
      rw [isSizeRejected_eq_false_iff] at haccepted
      omega
    rw [isPowerOfTwo_iff_dvd h, ← Ring.slots_distinct_iff_dvd hpos (by omega)]
    have hdistinct := hslots tr s this q hrun hq hsize
    rwa [hsize] at hdistinct
  · intro hpow tr s this q hrun hq hsize
    have haccepted := size_accepted hrun this q hq
    rw [hsize] at haccepted
    have hpos : 0 < size := by
      rw [isSizeRejected_eq_false_iff] at haccepted
      omega
    have hdvd := (isPowerOfTwo_iff_dvd h).mp (hpow haccepted)
    rw [hsize]
    exact (Ring.slots_distinct_iff_dvd hpos (by omega)).mpr hdvd

/-- **The check of the size** is as documented for 0, the odd sizes and the powers of two, and
these are the sizes of which every queue has different slots for the indexes of a window. -/
theorem queue_size_iff (h : size < 2 ^ 32) :
    (SizeChecked size ↔ size = 0 ∨ size % 2 = 1 ∨ size.isPowerOfTwo) ∧
      (SlotsDistinct size ↔ size = 0 ∨ size % 2 = 1 ∨ size.isPowerOfTwo) := by
  have hiff : (isSizeRejected size = false → size.isPowerOfTwo) ↔
      (isSizeRejected size = false ↔ size.isPowerOfTwo) :=
    ⟨fun hpow => ⟨hpow, isSizeRejected_of_isPowerOfTwo⟩, Iff.mp⟩
  rw [sizeChecked_iff, slotsDistinct_iff h, hiff, accepted_iff_isPowerOfTwo_iff]
  exact ⟨.rfl, .rfl⟩

/-- Queues of eight packets. -/
theorem queue_size_eight : SizeChecked 8 ∧ SlotsDistinct 8 :=
  ⟨(queue_size_iff (by decide)).1.mpr (.inr (.inr ⟨3, rfl⟩)),
    (queue_size_iff (by decide)).2.mpr (.inr (.inr ⟨3, rfl⟩))⟩

/-- A size of 6 is accepted, and the last index before the wrap has the slot of the index 3. -/
theorem queue_size_six :
    isSizeRejected 6 = false ∧ Word.wrap (2 ^ 64 - 1 + 0) % 6 = Word.wrap (2 ^ 64 - 1 + 4) % 6 ∧
      ¬ SizeChecked 6 ∧ ¬ SlotsDistinct 6 := by
  have hdvd : ¬ Nat.isPowerOfTwo 6 := by
    rw [isPowerOfTwo_iff_dvd (by decide)]
    decide
  refine ⟨by decide, by decide, ?_, ?_⟩
  · rw [sizeChecked_iff]
    exact fun h => hdvd (h.mp (by decide))
  · rw [slotsDistinct_iff (by decide)]
    exact fun h => hdvd (h (by decide))

end PhsaRuntime
