import SmartPerf.Data.Machine

namespace SmartPerf.Hook

open Data

/-! Which call chain an event of the native hook is given. -/

/-- Which fields a `NativeHookConfig` message has. -/
structure NativeHookConfig where
  expandPids : Bool := false
  processName : Bool := false
  pid : Bool := false
  statisticsInterval : Bool := false
  responseLibraryMode : Bool := false
  offlineSymbolization : Bool := false
  callframeCompress : Bool := false

/-- What the call chain of an event is read from. The dictionary gives a text one index for the whole run. -/
structure CallChainIds where
  isSingleProcData : Bool := true
  isOfflineSymbolizationMode : Bool := false
  isCallStackCompressedMode : Bool := false
  getDataIndex : String → Nat
  stackIdToCallChainIdMap : Nat → Option Nat := fun _ => none

namespace CallChainIds

variable (filter : CallChainIds) (ipid : Nat) (stackId : UInt32)

def parseConfigInfo (config : NativeHookConfig) : CallChainIds :=
  let offline := config.responseLibraryMode || config.offlineSymbolization
  { filter with
    isSingleProcData := filter.isSingleProcData && !(config.expandPids || config.processName && config.pid)
    isOfflineSymbolizationMode := filter.isOfflineSymbolizationMode || offline
    isCallStackCompressedMode :=
      filter.isCallStackCompressedMode || config.statisticsInterval || offline || config.callframeCompress }

def ipidWithStackIdIndex : Nat :=
  if filter.isSingleProcData then stackId.toNat
  else filter.getDataIndex (toString ipid ++ "_" ++ toString stackId.toNat)

/-- The keys of the map are 32 bits wide. -/
def callChainAt (key : Nat) : Option Nat := filter.stackIdToCallChainIdMap (key % 2 ^ 32)

/-- The chain that an event is given, `none` where the map throws. Allocations, frees and mappings share this text. -/
def setEventCallChainId : Option Nat :=
  if filter.isOfflineSymbolizationMode && stackId != 0 then
    if (filter.callChainAt (filter.ipidWithStackIdIndex ipid stackId)).isSome then
      filter.callChainAt (filter.ipidWithStackIdIndex ipid stackId)
    else some invalidUint32
  else if filter.isCallStackCompressedMode && stackId != 0 then some (filter.ipidWithStackIdIndex ipid stackId % 2 ^ 32)
  else some invalidUint32

def parseAllocEventCallChainId : Option Nat := filter.setEventCallChainId ipid stackId

def setFreeEventCallChainId : Option Nat := filter.setEventCallChainId ipid stackId

def setMmapEventCallChainId : Option Nat := filter.setEventCallChainId ipid stackId

/-- Without the tests of the stack id, and the chain is read at the stack id. -/
def setMunmapEventCallChainId : Option Nat :=
  if filter.isOfflineSymbolizationMode then
    if (filter.callChainAt (filter.ipidWithStackIdIndex ipid stackId)).isSome then filter.callChainAt stackId.toNat
    else some invalidUint32
  else if filter.isCallStackCompressedMode then some (filter.ipidWithStackIdIndex ipid stackId % 2 ^ 32)
  else some invalidUint32

/-- The four kinds of events are given one chain, and none of them throws. -/
def OneCallChain : Prop :=
  ∃ callChainId, filter.parseAllocEventCallChainId ipid stackId = some callChainId ∧
    filter.setFreeEventCallChainId ipid stackId = some callChainId ∧
    filter.setMmapEventCallChainId ipid stackId = some callChainId ∧
    filter.setMunmapEventCallChainId ipid stackId = some callChainId

/-- Offline, the stack is not in the map, or has the same chain under its id. Online, stacks are not compressed, or there
is a stack. -/
def ReadsAlike : Prop :=
  if filter.isOfflineSymbolizationMode then
    filter.callChainAt (filter.ipidWithStackIdIndex ipid stackId) = none ∨
      filter.callChainAt stackId.toNat =
        if stackId = 0 then some invalidUint32 else filter.callChainAt (filter.ipidWithStackIdIndex ipid stackId)
  else
    filter.isCallStackCompressedMode = false ∨ stackId ≠ 0 ∨ filter.ipidWithStackIdIndex ipid stackId % 2 ^ 32 = invalidUint32

theorem setEventCallChainId_isSome : ∃ callChainId, filter.setEventCallChainId ipid stackId = some callChainId := by
  rw [← Option.isSome_iff_exists, setEventCallChainId]
  split
  · split
    next found => exact found
    · rfl
  · split
    · rfl
    · rfl

theorem oneCallChain_iff_eq : filter.OneCallChain ipid stackId ↔
    filter.setMunmapEventCallChainId ipid stackId = filter.setEventCallChainId ipid stackId := by
  constructor
  · intro ⟨_, alloc, _, _, munmap⟩
    exact munmap.trans alloc.symm
  · intro same
    obtain ⟨callChainId, set⟩ := filter.setEventCallChainId_isSome ipid stackId
    exact ⟨callChainId, set, set, set, same.trans set⟩

/-- Events of one process with one stack are given the same call chain exactly when the look-up of the unmapping, which
does not test for a stack and reads the map at the stack id alone, finds what the others find. -/
theorem oneCallChain_iff (filter : CallChainIds) (ipid : Nat) (stackId : UInt32) :
    filter.OneCallChain ipid stackId ↔ filter.ReadsAlike ipid stackId := by
  rw [oneCallChain_iff_eq, ReadsAlike, setMunmapEventCallChainId, setEventCallChainId]
  by_cases absent : stackId = 0
  · cases filter.isOfflineSymbolizationMode with
    | true =>
      cases found : filter.callChainAt (filter.ipidWithStackIdIndex ipid stackId) with
      | none => simp [absent]
      | some callChainId => simp [absent]
    | false => cases compressed : filter.isCallStackCompressedMode <;> simp [absent]
  · cases filter.isOfflineSymbolizationMode with
    | true =>
      cases found : filter.callChainAt (filter.ipidWithStackIdIndex ipid stackId) with
      | none => simp [absent]
      | some callChainId => simp [absent]
    | false => simp [absent]

/-- Without a stack, an allocation has no call chain and an unmapping has call chain 0. -/
theorem not_oneCallChain_withoutStack :
    ¬ (parseConfigInfo { getDataIndex := fun _ => 0 } { callframeCompress := true }).OneCallChain 1 0 := by
  intro ⟨_, alloc, _, _, munmap⟩
  have same := munmap.trans alloc.symm
  revert same
  decide

end CallChainIds

end SmartPerf.Hook
