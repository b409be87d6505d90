/-!
# Status codes of the API

`hsa_status_t` as the modelled API functions return it. A callback of the application may
return any other code.
-/

namespace PhsaRuntime

/-- `hsa_status_t`, with the extension's codes. -/
inductive HsaStatus
  | success
  | errorNotInitialized
  | errorInvalidArgument
  | errorInvalidRegion
  | errorInvalidAllocation
  | errorOutOfResources
  | errorInvalidCodeObject
  /-- `HSA_EXT_STATUS_ERROR_INVALID_PROGRAM`. -/
  | errorInvalidProgram
  /-- `HSA_EXT_STATUS_ERROR_INVALID_MODULE`. -/
  | errorInvalidModule
  /-- `HSA_EXT_STATUS_ERROR_INCOMPATIBLE_MODULE`. -/
  | errorIncompatibleModule
  /-- `HSA_EXT_STATUS_ERROR_MODULE_ALREADY_INCLUDED`. -/
  | errorModuleAlreadyIncluded
  /-- `HSA_EXT_STATUS_ERROR_DIRECTIVE_MISMATCH`. -/
  | errorDirectiveMismatch
  | other (code : Nat)
  deriving DecidableEq, Repr

/-! The codes of the other calls, by their numbers. -/

namespace HsaStatus

/-- `HSA_STATUS_ERROR`. -/
abbrev error : HsaStatus := .other 0x1000

/-- `HSA_STATUS_ERROR_INVALID_QUEUE_CREATION`. -/
abbrev errorInvalidQueueCreation : HsaStatus := .other 0x1002

/-- `HSA_STATUS_ERROR_INVALID_AGENT`. -/
abbrev errorInvalidAgent : HsaStatus := .other 0x1004

/-- `HSA_STATUS_ERROR_INVALID_SIGNAL`. -/
abbrev errorInvalidSignal : HsaStatus := .other 0x1006

/-- `HSA_STATUS_ERROR_INVALID_QUEUE`. -/
abbrev errorInvalidQueue : HsaStatus := .other 0x1007

/-- `HSA_STATUS_ERROR_REFCOUNT_OVERFLOW`. -/
abbrev errorRefcountOverflow : HsaStatus := .other 0x100C

/-- `HSA_STATUS_ERROR_INVALID_INDEX`. -/
abbrev errorInvalidIndex : HsaStatus := .other 0x100E

/-- `HSA_STATUS_ERROR_INVALID_ISA`. -/
abbrev errorInvalidIsa : HsaStatus := .other 0x100F

/-- `HSA_STATUS_ERROR_INVALID_EXECUTABLE`. -/
abbrev errorInvalidExecutable : HsaStatus := .other 0x1011

/-- `HSA_STATUS_ERROR_FROZEN_EXECUTABLE`. -/
abbrev errorFrozenExecutable : HsaStatus := .other 0x1012

/-- `HSA_STATUS_ERROR_INVALID_SYMBOL_NAME`. -/
abbrev errorInvalidSymbolName : HsaStatus := .other 0x1013

/-- `HSA_STATUS_ERROR_VARIABLE_ALREADY_DEFINED`. -/
abbrev errorVariableAlreadyDefined : HsaStatus := .other 0x1014

/-- `HSA_EXT_STATUS_ERROR_FINALIZATION_FAILED`. -/
abbrev errorFinalizationFailed : HsaStatus := .other 0x2005

end HsaStatus

end PhsaRuntime
