import CliMetadata.Guid

/-!
# Custom debug information

A record of custom debug information carries a GUID that says what its data is.
Seven GUIDs are known; any other names a kind of its own.
-/

namespace CliMetadata

/-- What a debug record holds. -/
inductive DebugKind where
  | hoistedLocalScopes | dynamicLocals | tupleElementNames | localSlotMap | closureMap
  | sourceLink | embeddedSource
  | unknown (guid : Guid)
deriving Repr, DecidableEq

namespace DebugKind

/-- The known kinds with their GUIDs. -/
def known : List (Guid × DebugKind) :=
  [(.ofNat 0x6da9a61ef8c74874be6268bc5630df71, hoistedLocalScopes),
    (.ofNat 0x83c563c4b4f347d5b824ba5441477ea8, dynamicLocals),
    (.ofNat 0xed9fdf71887947478ed3fe5ede3ce710, tupleElementNames),
    (.ofNat 0x755f52a891c545beb4b8209571e552bd, localSlotMap),
    (.ofNat 0xa643004c0240496fa78330d64f4979de, closureMap),
    (.ofNat 0xcc110556a0914d389fec25ab9a351a6a, sourceLink),
    (.ofNat 0x0e8a571b6926466eb4ad8ab04611f5fe, embeddedSource)]

/-- The kind a GUID names. -/
def ofGuid (g : Guid) : DebugKind :=
  match known.find? fun entry => entry.1 == g with
  | some (_, kind) => kind
  | none => unknown g

/-- The GUID that names a kind. -/
def guid : DebugKind → Guid
  | unknown g => g
  | kind => ((known.find? fun entry => entry.2 == kind).map (·.1)).getD Guid.zero

/-- Whether a kind is one of the seven. -/
def isKnown : DebugKind → Bool
  | unknown _ => false
  | _ => true

/-- The name of a kind. -/
def name : DebugKind → String
  | hoistedLocalScopes => "StateMachineHoistedLocalScopes"
  | dynamicLocals => "DynamicLocalVariables"
  | tupleElementNames => "TupleElementNames"
  | localSlotMap => "EncLocalSlotMap"
  | closureMap => "EncLambdaAndClosureMap"
  | sourceLink => "SourceLink"
  | embeddedSource => "EmbeddedSource"
  | unknown g => "Unknown(" ++ Guid.display g ++ ")"

end DebugKind

/-- A debug record. -/
structure DebugInfo where
  kind : DebugKind
  data : List UInt8
deriving Repr, DecidableEq

/-- The record with the kind that a GUID names. -/
def DebugInfo.ofGuid (g : Guid) (data : List UInt8) : DebugInfo := ⟨.ofGuid g, data⟩

end CliMetadata
