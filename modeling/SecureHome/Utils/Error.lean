-- The error codes that every fallible function of the drivers returns.
inductive ErrorT
  | none
  -- Standard errors common to all modules
  | errFail
  | errTimeout
  | errInvalidState
  | errInvalidArg
  | errHalFail
  -- GSM module driver errors
  | gsmSimNotFound
  | gsmSimNotRegistered
  | gsmModuleNotAlive
  | gsmBadNetworkConn
  | gsmSmsSendFail
  -- File IO errors
  | fileFailedToSeek
  | fileFailedToSync
  | fileFailedToRead
  | fileFailedToWrite
  | fileFailedToOpen
  | fileFailedToClose
  | fileFsCorrupted
  | fileFsFailedToFormat
  | fileFsFailedToMount
  | fileFsFailedToUnmount
  deriving DecidableEq, Repr
