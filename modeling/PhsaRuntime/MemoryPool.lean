import Mathlib.Data.List.AList
import PhsaRuntime.HsaStatus
import PhsaRuntime.Lib.Machine

/-!
# Memory pools

`hsa_amd_agent_iterate_memory_pools` is meant as `hsa_agent_iterate_regions` under another name.
It reports the handles that it has copied for the agent when it was first called for it. The
copies are in a variable of the process, by the handle of the agent, and outlive the runtime,
which `hsa_shut_down` destroys and the next `hsa_init` creates again, at addresses that may be
those of before.

The handle of an agent or a region is its address. A callback is given its data, and may change
it.

## Main definitions

* `hsaAgentIterateRegions`, `hsaAmdAgentIterateMemoryPools` — the two iterations.
* `sessionMachine` — sessions, and the first calls of the second one.

## Main result

* `memory_pools_mirror_iff` — when the two iterations are the same.
-/

namespace PhsaRuntime

/-! ## The runtime -/

/-- An `Agent`: its handle, and the handles of its `MemoryRegions`. -/
structure RegionAgent where
  handle : ℕ
  memoryRegions : List ℕ
  deriving DecidableEq, Repr

/-- `Agent::registerMemoryRegion`. -/
def RegionAgent.registerMemoryRegion (a : RegionAgent) (mr : ℕ) : RegionAgent :=
  { a with memoryRegions := a.memoryRegions ++ [mr] }

/-- `CPURuntime::CPURuntime`: the agents, from the addresses of its objects. -/
def cpuRuntime (globalMemRegion cpuAgent groupMemRegion : ℕ) : List RegionAgent :=
  let agent : RegionAgent := { handle := cpuAgent, memoryRegions := [] }
  [(agent.registerMemoryRegion globalMemRegion).registerMemoryRegion groupMemRegion]

/-- The process. Without an `Instance` there are no agents. -/
structure Sessions where
  referenceCounter : ℕ
  agents : List RegionAgent
  /-- The map `agents` of `hsa_ext_amd.cc`: the pools of an agent, by its handle. -/
  agentData : AList fun _ : ℕ => List ℕ

namespace Sessions

/-- `Runtime::isInitialized`. -/
def isInitialized (s : Sessions) : Bool := s.referenceCounter > 0

/-- `hsa_init`, with the addresses of the objects of a new runtime. -/
def hsaInit (globalMemRegion cpuAgent groupMemRegion : ℕ) (s : Sessions) : HsaStatus × Sessions :=
  -- `std::numeric_limits<int32_t>::max()`
  if s.referenceCounter = 2147483647 then (.errorRefcountOverflow, s)
  else
    let agents :=
      if s.referenceCounter = 0 then cpuRuntime globalMemRegion cpuAgent groupMemRegion
      else s.agents
    (.success, { s with agents, referenceCounter := s.referenceCounter + 1 })

/-- `hsa_shut_down`. -/
def hsaShutDown (s : Sessions) : HsaStatus × Sessions :=
  if s.referenceCounter = 0 then (.errorNotInitialized, s)
  else
    let agents := if s.referenceCounter = 1 then [] else s.agents
    (.success, { s with agents, referenceCounter := s.referenceCounter - 1 })

/-- `Agent::fromHSAObject`. -/
def agent (s : Sessions) (handle : ℕ) : Option RegionAgent :=
  s.agents.find? fun a => a.handle = handle

end Sessions

/-! ## The iterations -/

/-- A callback: what it returns for a handle, and its data afterwards. -/
abbrev RegionCallback (δ : Type) := ℕ → δ → HsaStatus × δ

/-- How an iteration ends: its status, the handles that were reported, and the data of the
callback. -/
@[ext]
structure Iteration (δ : Type) where
  status : HsaStatus
  reported : List ℕ
  data : δ
  deriving DecidableEq, Repr

variable {δ : Type}

/-- The loop of `hsa_agent_iterate_regions`. -/
def iterateRegions (callback : RegionCallback δ) : List ℕ → δ → Iteration δ
  | [], data => { status := .success, reported := [], data }
  | region :: rest, data =>
    let r := callback region data
    if r.1 ≠ .success then { status := r.1, reported := [region], data := r.2 }
    else
      let it := iterateRegions callback rest r.2
      { it with reported := region :: it.reported }

/-- `hsa_agent_iterate_regions`. -/
def hsaAgentIterateRegions (agent : ℕ) (callback : Option (RegionCallback δ)) (data : δ)
    (s : Sessions) : Iteration δ :=
  if !s.isInitialized then { status := .errorNotInitialized, reported := [], data }
  else
    match callback with
    | none => { status := .errorInvalidArgument, reported := [], data }
    | some callback =>
      match s.agent agent with
      | none => { status := .errorInvalidAgent, reported := [], data }
      | some a => iterateRegions callback a.memoryRegions data

/-- `initialize_memory_pools`. -/
def initializeMemoryPools : RegionCallback (List ℕ) := fun region memPools =>
  (.success, memPools ++ [region])

/-- `AgentData::AgentData`: the pools; `none` where the process aborts. -/
def newAgentData (agent : ℕ) (s : Sessions) : Option (List ℕ) :=
  let it := hsaAgentIterateRegions agent (some initializeMemoryPools) [] s
  if it.status ≠ .success then none else some it.data

/-- `get_agent_data`: the pools and the process afterwards. -/
def getAgentData (agent : ℕ) (s : Sessions) : Option (List ℕ × Sessions) :=
  match s.agentData.lookup agent with
  | some memPools => some (memPools, s)
  | none =>
    (newAgentData agent s).map fun memPools =>
      (memPools, { s with agentData := s.agentData.insert agent memPools })

/-- The loop of `hsa_amd_agent_iterate_memory_pools`. What the callback returns is dropped. -/
def iterateMemoryPools (callback : RegionCallback δ) : List ℕ → δ → Iteration δ
  | [], data => { status := .success, reported := [], data }
  | pool :: rest, data =>
    let it := iterateMemoryPools callback rest (callback pool data).2
    { it with reported := pool :: it.reported }

/-- `hsa_amd_agent_iterate_memory_pools`; `none` where the process aborts. -/
def hsaAmdAgentIterateMemoryPools (agent : ℕ) (callback : RegionCallback δ) (data : δ)
    (s : Sessions) : Option (Iteration δ × Sessions) :=
  (getAgentData agent s).map fun r => (iterateMemoryPools callback r.1 data, r.2)

/-! ## Runs -/

/-- What changes the process. An iteration over the pools changes it by what it stores of the
agent, whatever its callback is. -/
inductive SessionAction
  | init (globalMemRegion cpuAgent groupMemRegion : ℕ)
  | shutDown
  | iterateMemoryPools (agent : ℕ)
  deriving DecidableEq, Repr

/-- A process, from its start on. The objects of a new runtime have any addresses, but not
two the same one. -/
def sessionMachine : Machine Sessions SessionAction where
  init s := s = { referenceCounter := 0, agents := [], agentData := ∅ }
  step
    | .init globalMemRegion cpuAgent groupMemRegion, s =>
      if [0, globalMemRegion, cpuAgent, groupMemRegion].Nodup then
        some (s.hsaInit globalMemRegion cpuAgent groupMemRegion).2
      else none
    | .shutDown, s => some s.hsaShutDown.2
    | .iterateMemoryPools agent, s => (getAgentData agent s).map Prod.snd

/-- The regions that the agent with the given handle had when its pools were iterated for the
first time in a run. -/
def firstQuery : List (Sessions × SessionAction) → ℕ → Option (List ℕ)
  | [], _ => none
  | (s, a) :: earlier, agent =>
    (firstQuery earlier agent).or
      (if a = .iterateMemoryPools agent then (s.agent agent).map RegionAgent.memoryRegions
        else none)

/-- The callback returns `HSA_STATUS_SUCCESS` for all of the handles. -/
def Succeeds (callback : RegionCallback δ) : List ℕ → δ → Prop
  | [], _ => True
  | region :: rest, data =>
    (callback region data).1 = .success ∧ Succeeds callback rest (callback region data).2

/-! ## The loops -/

variable {callback : RegionCallback δ} {regions memPools : List ℕ} {data : δ} {agent : ℕ}
  {s s' : Sessions} {a : RegionAgent} {tr : List (Sessions × SessionAction)}

@[simp] theorem status_iterateMemoryPools :
    (iterateMemoryPools callback memPools data).status = .success := by
  induction memPools generalizing data with
  | nil => rfl
  | cons pool memPools ih => simp only [iterateMemoryPools, ih]

@[simp] theorem reported_iterateMemoryPools :
    (iterateMemoryPools callback memPools data).reported = memPools := by
  induction memPools generalizing data with
  | nil => rfl
  | cons pool memPools ih => simp only [iterateMemoryPools, ih]

/-- The loop over the regions is the one over the pools, until the callback returns an error. -/
theorem iterateRegions_of_succeeds (h : Succeeds callback regions data) :
    iterateRegions callback regions data = iterateMemoryPools callback regions data := by
  induction regions generalizing data with
  | nil => rfl
  | cons region regions ih =>
    obtain ⟨hsuccess, hrest⟩ := h
    simp only [iterateRegions, iterateMemoryPools, hsuccess, ne_eq, not_true_eq_false, if_false,
      ih hrest]

theorem status_iterateRegions_eq_success :
    (iterateRegions callback regions data).status = .success ↔ Succeeds callback regions data := by
  induction regions generalizing data with
  | nil => exact iff_of_true rfl trivial
  | cons region regions ih =>
    by_cases hsuccess : (callback region data).1 = .success
    · simp only [iterateRegions, Succeeds, hsuccess, ne_eq, not_true_eq_false, if_false, ih,
        true_and]
    · simp only [iterateRegions, Succeeds, hsuccess, ne_eq, not_false_eq_true, if_true, false_and]

/-- **The loops are the same** over the same handles, for a callback that returns no error. -/
theorem iterateMemoryPools_eq_iff :
    iterateMemoryPools callback memPools data = iterateRegions callback regions data ↔
      memPools = regions ∧ Succeeds callback regions data := by
  constructor
  · intro heq
    have hsuccess : Succeeds callback regions data := by
      rw [← status_iterateRegions_eq_success, ← heq, status_iterateMemoryPools]
    have hreported := congrArg Iteration.reported heq
    rw [iterateRegions_of_succeeds hsuccess, reported_iterateMemoryPools,
      reported_iterateMemoryPools] at hreported
    exact ⟨hreported, hsuccess⟩
  · rintro ⟨rfl, hsuccess⟩
    exact (iterateRegions_of_succeeds hsuccess).symm

theorem iterateRegions_initializeMemoryPools :
    iterateRegions initializeMemoryPools regions memPools =
      { status := .success, reported := regions, data := memPools ++ regions } := by
  induction regions generalizing memPools with
  | nil => simp [iterateRegions]
  | cons region regions ih => simp [iterateRegions, initializeMemoryPools, ih]

/-! ## The copies -/

/-- Agents live in a runtime that is initialized. -/
theorem isInitialized_of_run (hrun : sessionMachine.Run tr s) (ha : s.agent agent = some a) :
    s.isInitialized = true := by
  have hinv : s.referenceCounter = 0 → s.agents = [] := by
    clear ha
    induction hrun with
    | init hs =>
      rintro -
      rw [hs]
    | @step tr s s' act _ hs ih =>
      cases act with
      | init globalMemRegion cpuAgent groupMemRegion =>
        simp only [sessionMachine] at hs
        split at hs
        · obtain rfl := Option.some.inj hs
          rw [Sessions.hsaInit]
          split
          · exact ih
          · intro hzero
            simp at hzero
        · cases hs
      | shutDown =>
        obtain rfl := Option.some.inj hs
        rw [Sessions.hsaShutDown]
        split
        · exact ih
        · intro hzero
          have hone : s.referenceCounter = 1 := by
            simp only at hzero
            omega
          simp [hone]
      | iterateMemoryPools agent =>
        obtain ⟨r, hr, rfl⟩ := Option.map_eq_some_iff.mp hs
        rw [getAgentData] at hr
        split at hr
        · obtain rfl := Option.some.inj hr
          exact ih
        · obtain ⟨memPools, -, rfl⟩ := Option.map_eq_some_iff.mp hr
          exact ih
  by_contra hnot
  have hzero : s.referenceCounter = 0 := by simpa [Sessions.isInitialized] using hnot
  simp [Sessions.agent, hinv hzero] at ha

/-- The pools of an agent are copied from its regions. -/
theorem newAgentData_eq (hrun : sessionMachine.Run tr s) :
    newAgentData agent s = (s.agent agent).map RegionAgent.memoryRegions := by
  cases ha : s.agent agent with
  | some a =>
    simp [newAgentData, hsaAgentIterateRegions, isInitialized_of_run hrun ha, ha,
      iterateRegions_initializeMemoryPools]
  | none =>
    have hstatus : (hsaAgentIterateRegions agent (some initializeMemoryPools) [] s).status ≠
        .success := by
      simp only [hsaAgentIterateRegions, ha]
      split <;> exact HsaStatus.noConfusion
    simp only [newAgentData, hstatus, ne_eq, not_false_eq_true, if_true, Option.map_none]

/-- The pools of an agent are those that are stored, or else are copied and stored. -/
theorem getAgentData_cases (h : getAgentData agent s = some (memPools, s')) :
    (s.agentData.lookup agent = some memPools ∧ s' = s) ∨
      (s.agentData.lookup agent = none ∧ newAgentData agent s = some memPools ∧
        s' = { s with agentData := s.agentData.insert agent memPools }) := by
  rw [getAgentData] at h
  split at h
  · rename_i memPools' hlookup
    obtain ⟨rfl, rfl⟩ := Prod.mk.inj (Option.some.inj h)
    exact .inl ⟨hlookup, rfl⟩
  · rename_i hlookup
    obtain ⟨memPools', hnew, heq⟩ := Option.map_eq_some_iff.mp h
    obtain ⟨rfl, rfl⟩ := Prod.mk.inj heq
    exact .inr ⟨hlookup, hnew, rfl⟩

/-- Sessions leave the copies as they are. -/
theorem step_agentData {act : SessionAction} (hs : sessionMachine.step act s = some s')
    (hact : ∀ agent, act ≠ .iterateMemoryPools agent) : s'.agentData = s.agentData := by
  cases act with
  | init globalMemRegion cpuAgent groupMemRegion =>
    simp only [sessionMachine] at hs
    split at hs
    · obtain rfl := Option.some.inj hs
      rw [Sessions.hsaInit]
      split <;> rfl
    · cases hs
  | shutDown =>
    obtain rfl := Option.some.inj hs
    rw [Sessions.hsaShutDown]
    split <;> rfl
  | iterateMemoryPools agent => exact absurd rfl (hact agent)

/-- **The copies are those of the first query.** -/
theorem lookup_agentData (hrun : sessionMachine.Run tr s) (agent : ℕ) :
    s.agentData.lookup agent = firstQuery tr agent := by
  induction hrun with
  | init hs =>
    rw [hs]
    rfl
  | @step tr s s' act hrun hs ih =>
    rw [firstQuery, ← ih]
    by_cases hact : act = .iterateMemoryPools agent
    · subst hact
      obtain ⟨⟨memPools, s₁⟩, hr, rfl⟩ := Option.map_eq_some_iff.mp hs
      rw [if_pos rfl, ← newAgentData_eq hrun]
      rcases getAgentData_cases hr with ⟨hlookup, rfl⟩ | ⟨hlookup, hnew, rfl⟩
      · rw [hlookup, Option.some_or]
      · rw [hlookup, hnew, Option.none_or, AList.lookup_insert]
    · rw [if_neg hact, Option.or_none]
      by_cases hother : ∀ agent, act ≠ .iterateMemoryPools agent
      · rw [step_agentData hs hother]
      · simp only [ne_eq, not_forall, not_not] at hother
        obtain ⟨queried, rfl⟩ := hother
        have hne : agent ≠ queried := by
          rintro rfl
          exact hact rfl
        obtain ⟨⟨memPools, s₁⟩, hr, rfl⟩ := Option.map_eq_some_iff.mp hs
        rcases getAgentData_cases hr with ⟨-, rfl⟩ | ⟨-, -, rfl⟩
        · rfl
        · exact AList.lookup_insert_ne hne

/-- **When the pools of a live agent mirror its regions:** for every callback, the two iterations
report the same and return the same exactly if the agent with this handle had the same regions
when its pools were iterated for the first time, and the callback returns no error. -/
theorem memory_pools_mirror_iff (hrun : sessionMachine.Run tr s) (ha : s.agent agent = some a)
    (callback : RegionCallback δ) (data : δ) :
    (hsaAmdAgentIterateMemoryPools agent callback data s).map Prod.fst =
        some (hsaAgentIterateRegions agent (some callback) data s) ↔
      (∀ regions, firstQuery tr agent = some regions → regions = a.memoryRegions) ∧
        Succeeds callback a.memoryRegions data := by
  have hregions : hsaAgentIterateRegions agent (some callback) data s =
      iterateRegions callback a.memoryRegions data := by
    simp [hsaAgentIterateRegions, isInitialized_of_run hrun ha, ha]
  have hpools : (hsaAmdAgentIterateMemoryPools agent callback data s).map Prod.fst =
      some (iterateMemoryPools callback ((firstQuery tr agent).getD a.memoryRegions) data) := by
    rw [hsaAmdAgentIterateMemoryPools, getAgentData, lookup_agentData hrun]
    cases firstQuery tr agent with
    | some memPools => rfl
    | none =>
      rw [newAgentData_eq hrun, ha]
      rfl
  rw [hregions, hpools, Option.some.injEq, iterateMemoryPools_eq_iff]
  apply and_congr_left'
  cases firstQuery tr agent with
  | some memPools => simp
  | none => simp

/-- A callback that collects handles, in the second session of an agent that was not queried in
the first one. -/
theorem memory_pools_mirror_second : ∃ tr s, sessionMachine.Run tr s ∧
    (hsaAmdAgentIterateMemoryPools 2 (fun r l => (.success, l ++ [r])) [] s).map Prod.fst =
      some (hsaAgentIterateRegions 2 (some fun r l => (.success, l ++ [r])) [] s) := by
  obtain ⟨tr, s, hrun, hp⟩ := Machine.exists_run_of_trace sessionMachine
    [.init 1 2 3, .shutDown, .init 4 2 5]
    (fun tr s => firstQuery tr 2 = none ∧ s.agent 2 = some ⟨2, [4, 5]⟩) rfl (by decide)
  obtain ⟨hfirst, ha⟩ := of_decide_eq_true hp
  refine ⟨tr, s, hrun, (memory_pools_mirror_iff hrun ha _ _).mpr ⟨?_, ?_⟩⟩
  · simp [hfirst]
  · simp [Succeeds]

/-- A new agent at the address of a destroyed one has the pools of that one; and the error of a
callback is not returned. -/
theorem memory_pools_stale :
    (∃ tr s, sessionMachine.Run tr s ∧ s.agent 2 = some ⟨2, [4, 5]⟩ ∧
      (hsaAmdAgentIterateMemoryPools 2 (fun r l => (.success, l ++ [r])) [] s).map Prod.fst =
        some { status := .success, reported := [1, 3], data := [1, 3] } ∧
      hsaAgentIterateRegions 2 (some fun r l => (.success, l ++ [r])) [] s =
        { status := .success, reported := [4, 5], data := [4, 5] }) ∧
    ∃ tr s, sessionMachine.Run tr s ∧ s.agent 2 = some ⟨2, [1, 3]⟩ ∧
      (hsaAmdAgentIterateMemoryPools 2 (fun _ n => (.error, n + 1)) 0 s).map Prod.fst =
        some { status := .success, reported := [1, 3], data := 2 } ∧
      hsaAgentIterateRegions 2 (some fun _ n => (.error, n + 1)) 0 s =
        { status := .error, reported := [1], data := 1 } := by
  constructor
  · obtain ⟨tr, s, hrun, hp⟩ := Machine.exists_run_of_trace sessionMachine
      [.init 1 2 3, .iterateMemoryPools 2, .shutDown, .init 4 2 5]
      (fun _ s => s.agent 2 = some ⟨2, [4, 5]⟩ ∧
        (hsaAmdAgentIterateMemoryPools 2 (fun r l => (.success, l ++ [r])) [] s).map Prod.fst =
          some { status := .success, reported := [1, 3], data := [1, 3] } ∧
        hsaAgentIterateRegions 2 (some fun r l => (.success, l ++ [r])) [] s =
          { status := .success, reported := [4, 5], data := [4, 5] }) rfl (by decide)
    exact ⟨tr, s, hrun, of_decide_eq_true hp⟩
  · obtain ⟨tr, s, hrun, hp⟩ := Machine.exists_run_of_trace sessionMachine [.init 1 2 3]
      (fun _ s => s.agent 2 = some ⟨2, [1, 3]⟩ ∧
        (hsaAmdAgentIterateMemoryPools 2 (fun _ n => (.error, n + 1)) 0 s).map Prod.fst =
          some { status := .success, reported := [1, 3], data := 2 } ∧
        hsaAgentIterateRegions 2 (some fun _ n => (.error, n + 1)) 0 s =
          { status := .error, reported := [1], data := 1 }) rfl (by decide)
    exact ⟨tr, s, hrun, of_decide_eq_true hp⟩

end PhsaRuntime
