import CliMetadata.Catalogue.Form
import CliMetadata.Catalogue.Value
import CliMetadata.Text.Outline

/-!
# Questions without a graph

What can be asked about tokens, versions, identities, names, flags, heaps and
slots by themselves.
-/

namespace CliMetadata.Plain

open Form (ask place)

/-- The account of a token. -/
def token (t : Token) : Value :=
  .record
    [("value", toValue t.value), ("table", toValue t.table.val), ("row", toValue t.row.val),
      ("is_null", toValue t.isNull), ("table_id", toValue t.tableId?),
      ("display", toValue t.display), ("debug", toValue t.debug)]

/-- The account of a coded index. -/
def coded (c : CodedIndex) : Value :=
  .record
    [("tag", toValue c.tag), ("row", toValue c.row), ("token", toValue c.token),
      ("is_null", toValue c.isNull),
      ("valid_for", toValue ((CodedKind.all.filter c.validFor).map CodedKind.name))]

/-- The kinds of coded indices with their tables. -/
def codedTables : Value :=
  toValue (CodedKind.all.map fun k =>
    [k.name, Text.Outline.list (k.tables.map TableId.name)])

/-- The account of a version. -/
def version (v : AssemblyVersion) : Value :=
  .record
    [("v", toValue v), ("display", toValue v.display), ("unknown", toValue v.isUnknown)]

/-- The account of a strong name: itself, and its tokens under hash algorithms. -/
def strongName (s : StrongName) : Value :=
  .record
    [("identity", toValue s), ("md5", toValue (s.toToken HashAlgorithm.md5)),
      ("sha1", toValue (s.toToken HashAlgorithm.sha1)),
      ("none", toValue (s.toToken HashAlgorithm.none))]

/-- The account of a name. -/
def name (n : Name) : Value :=
  .record
    [("lossy", toValue n.lossy), ("display", toValue n.lossy), ("empty", toValue n.isEmpty),
      ("len", toValue n.bytes.length), ("out", toValue n)]

/-- The account of two names. -/
def names (a b : Name) : Value :=
  .record
    [("eq", toValue (a == b)), ("eq_ignore_case", toValue (a.sameIgnoringCase b)),
      ("cmp", toValue (a.compare b)), ("eq_str", toValue (a.isText b.lossy)),
      ("eq_str_ref", toValue (a.isText b.lossy))]

/-- The account of the flags of a method. -/
def methodFlags (f : Flags) : Value :=
  .record
    [("access", toValue (MethodFlags.access f)), ("modifiers", toValue (MethodFlags.modifiers f)),
      ("code_type", toValue (MethodFlags.codeType f)),
      ("final", toValue (MethodFlags.isFinal f)), ("abstract", toValue (MethodFlags.isAbstract f))]

/-! ## Heaps and slots -/

/-- An operation on a string heap: the answer, and the heap after it. -/
def heapOperation : Form (StringHeap → Value × StringHeap) := do
  match ← place 0 .text with
  | "add" =>
    let n ← place 1 .name
    return fun h =>
      let (offset, h') := h.add n.bytes
      (toValue offset, h')
  | "get" =>
    let offset ← place 1 .number
    return fun h => (toValue (h.get? offset), h)
  | "len" => return fun h => (toValue h.size, h)
  | "is_empty" => return fun h => (toValue h.isEmpty, h)
  | _ => Form.unfillable "operation"

/-- The answers of operations in order. -/
def heapAnswers : List (StringHeap → Value × StringHeap) → StringHeap → List Value
  | [], _ => []
  | op :: rest, h =>
    let (answer, h') := op h
    answer :: heapAnswers rest h'

/-- An operation on a slot of numbers: the answer, and the slot after it.  Under
the locking policy the racing read under the slot's policy is left out. -/
def slotOperation (policy : InitPolicy) : Form (Slot.Cell Int → Value × Slot.Cell Int) := do
  match ← place 0 .text with
  | "get" => return act (.get (← place 1 .integer))
  | "get_relaxed" => return act (.getRelaxed (← place 1 .integer))
  | "get_racing" => return act (.getRacing (← place 1 .integer) (← place 2 .integer))
  | "get_racing_locked" =>
    if policy = .noLocking then
      return act (.getRacingLocked (← place 1 .integer) (← place 2 .integer))
    else Form.unfillable "operation"
  | "set" => return act (.set (← place 1 .integer))
  | "set_relaxed" => return act (.setRelaxed (← place 1 .integer))
  | "reset" => return act .reset
  | "peek" => return act .peek
  | "is_initialized" => return fun c => (toValue c.value.isSome, c)
  | "policy" => return fun c => (toValue policy.name, c)
  | _ => Form.unfillable "operation"
where
  act (a : Slot.Action Int) (c : Slot.Cell Int) : Value × Slot.Cell Int :=
    let (answer, c') := a.run policy c
    (toValue answer, c')

/-- The answers of operations in order, each with the number of computations so
far. -/
def slotAnswers : List (Slot.Cell Int → Value × Slot.Cell Int) → Slot.Cell Int → List Value
  | [], _ => []
  | op :: rest, c =>
    let (answer, c') := op c
    .list [answer, toValue c'.computations] :: slotAnswers rest c'

/-! ## The questions -/

/-- Questions about tables, tokens and coded indices. -/
def tokens : List (String × Form Value) :=
  [("token", do return token (← ask "v" .token)),
    ("token_from_parts", do
      return token (.ofParts (← ask "table" .table) (← ask "rid" .number))),
    ("token_cmp", do
      let a ← ask "a" .token
      let b ← ask "b" .token
      return .list [toValue (a == b), toValue (a.compare b)]),
    ("table_from_byte", do
      return toValue (TableId.ofNumber? (← ask "b" .number))),
    ("coded", do
      match ← ask "table" (.optional .table) with
      | some tag => return coded ⟨tag, ← ask "row" .number⟩
      | none => return coded default),
    ("coded_tables", return codedTables)]

/-- Questions about versions, identities and strong names. -/
def identities : List (String × Form Value) :=
  [("version_parse", do
      return version (← ask "s" (.attempt .text fun s =>
        (AssemblyVersion.parse s.toList).mapError .malformed))),
    ("version_cmp", do
      let a ← ask "a" .version
      let b ← ask "b" .version
      let t ← ask "t" .version
      return .record
        [("cmp", toValue (a.compare b)), ("compatible", toValue (a.compatibleWith b)),
          ("closer", toValue (a.closerTo b t))]),
    ("identity", do return toValue (← ask "v" .identity)),
    ("identity_cmp", do
      let a ← ask "a" .identity
      let b ← ask "b" .identity
      return .record
        [("eq", toValue (a.sameAssembly b)), ("a_satisfies_b", toValue (a.satisfies b)),
          ("b_satisfies_a", toValue (b.satisfies a))]),
    ("strong_name", do
      let data ← ask "data" .bytes
      let isKey ← ask "is_pub" .truth
      return toValue ((StrongName.ofStored? data isKey).map strongName)),
    ("strong_matches", do
      let a ← ask "a" .strongName
      let b ← ask "b" .strongName
      return .list [toValue (a.agrees b), toValue (a == b)])]

/-- Questions about names, heaps and slots. -/
def texts : List (String × Form Value) :=
  [("name", do return name (← ask "v" .name)),
    ("name_cmp", do return names (← ask "a" .name) (← ask "b" .name)),
    ("string_heap", do
      let ops ← ask "ops" (.list (.places heapOperation))
      return .list (heapAnswers ops .empty)),
    ("slot", do
      let policy ← ask "policy" .policy
      let initial ← ask "initial" (.optional .integer)
      let ops ← ask "ops" (.list (.places (slotOperation policy)))
      return .list (slotAnswers ops ⟨initial, 0⟩))]

/-- Questions about kinds, flags and settings. -/
def settings : List (String × Form Value) :=
  [("debug_kind", do
      let kind := DebugKind.ofGuid (← ask "guid" .guid)
      return .record
        [("kind", toValue kind.name), ("guid", toValue kind.guid),
          ("known", toValue kind.isKnown)]),
    ("security_action", do
      return toValue ((SecurityAction.ofNumber? (← ask "v" .word)).map SecurityAction.name)),
    ("method_flags", do return methodFlags (← ask "v" .flags)),
    ("relation", do return toValue (← ask "v" .relation).isExplicit),
    ("config", do
      let c ← Shape.resolverConfig
      return .list [toValue c.project, toValue c.maxHops]),
    ("loader_config",
      return toValue ([default, InitPolicy.singleThreaded, InitPolicy.threadSafe].map
        InitPolicy.name)),
    ("origin", do
      let o : Origin := match ← ask "rid" (.optional .number) with
        | some rid => .row 0 rid
        | none => default
      return .list
        [toValue o.isMaterialized, toValue o.rid?, toValue (Graph.empty.reader? o).isSome])]

/-- The questions. -/
def all : List (String × Form Value) := tokens ++ identities ++ texts ++ settings

end CliMetadata.Plain
