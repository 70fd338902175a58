import Vaiexia.Lib.Utf8

/-!
# The backend traits

`error.rs`, `types.rs`, `unit_name.rs`, `logs/cursor.rs` and the traits of `mod.rs` in
`crates/vaiexia-server/src/backend`.  A trait is the structure of its methods, each with what it
answers to one call.
-/

namespace Vaiexia.Backend

open Vaiexia.Lib

/-- `BackendError`. -/
inductive BackendError where
  | notFound
  | invalidName
  | invalidInput (text : String)
  | unsupported
  | unavailable
  | denied
  | busy
  | timeout
  | protocol
  | io
  | internal (text : String)
deriving DecidableEq, Repr

/-! ## Values -/

/-- `HostInfo`. -/
structure HostInfo where
  hostname : String
  os : String
  kernel : String
  arch : String

/-- `BackendCapabilities`. -/
structure BackendCapabilities where
  services : Bool
  packages : Bool
  metrics : Bool
  logs : Bool

/-- `ServiceState`. -/
inductive ServiceState where
  | active | inactive | failed | activating | deactivating | unknown
deriving DecidableEq, Repr

/-- `UnitStatus`. -/
structure UnitStatus where
  name : String
  description : String
  loadState : String
  activeState : ServiceState
  subState : String
deriving DecidableEq

/-- `UnitDetail`. -/
structure UnitDetail where
  status : UnitStatus
  sinceMs : Option UInt64
  mainPid : Option UInt32
deriving DecidableEq

/-- `PackageInfo`. -/
structure PackageInfo where
  name : String
  version : String
  installed : Bool
  summary : Option String

/-- `LogEntry`. -/
structure LogEntry where
  cursor : String
  tsUs : UInt64
  unit : Option String
  priority : UInt8
  message : String

/-- `LogQuery`. -/
structure LogQuery where
  unit : Option String
  sinceUs : Option UInt64
  untilUs : Option UInt64
  limit : UInt32
  cursor : Option String

/-- `Page`. -/
structure Page (α : Type) where
  items : List α
  next : Option String

/-! ## Names and cursors -/

/-- The bytes that a unit name may not have. -/
def isUnitNameByte (b : UInt8) : Bool :=
  !(b ≤ 0x1F || b == 0x7F || b == 0x2F || b == 0x5C)

/-- `UnitName::parse`. -/
def unitName (s : String) : Option String :=
  if s.isEmpty || 256 < Utf8.byteLen s.toList then none
  else if (Utf8.encode s.toList).any fun b ↦ !isUnitNameByte b then none
  else some s

/-- `MAX_CURSOR_LEN`. -/
def maxCursorLen : Nat := 1024

/-- `u8::is_ascii_control`. -/
def isAsciiControl (b : UInt8) : Bool := b ≤ 0x1F || b == 0x7F

/-- `cursor::is_valid`. -/
def isValidCursor (cursor : String) : Bool :=
  !cursor.isEmpty && Utf8.byteLen cursor.toList ≤ maxCursorLen
    && !(Utf8.encode cursor.toList).any isAsciiControl

/-! ## Traits -/

/-- `HostInfoProvider`. -/
structure HostInfoProvider where
  hostInfo : Except BackendError HostInfo

/-- `ServiceManager`. -/
structure ServiceManager where
  list : Option ServiceState → Option String → Option String →
    Except BackendError (Page UnitStatus)
  status : String → Except BackendError UnitDetail
  start : String → Except BackendError ServiceState
  stop : String → Except BackendError ServiceState
  restart : String → Except BackendError ServiceState

/-- `PackageManager`. -/
structure PackageManager where
  list : Option String → Bool → Option String → Except BackendError (Page PackageInfo)
  install : String → Except BackendError Unit
  remove : String → Except BackendError Unit

/-- `LogProvider`. -/
structure LogProvider where
  query : LogQuery → Except BackendError (Page LogEntry)

/-- `SystemBackend`. -/
structure SystemBackend where
  host : HostInfoProvider
  services : Option ServiceManager
  packages : Option PackageManager
  logs : Option LogProvider
  caps : BackendCapabilities

end Vaiexia.Backend
