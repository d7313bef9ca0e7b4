import CliMetadata.Graph.Display

/-!
# Members

Fields, methods, parameters, properties, events and generic parameters, and the
references to members.  Setting the signature of a field or a property forgets
its constant, which depends on it.
-/

namespace CliMetadata

open Loading

/-- A name below the full name of an owner. -/
def memberName (owner? : Option String) (name : Name) : String :=
  match owner? with
  | some owner => owner ++ "::" ++ name.lossy
  | none => name.lossy

/-- The type that lists a member on an edge. -/
def declaringTypeOf (e : Edge) (member : Key) : GraphM (Option TypeDefId) := do
  return (← Ownership.owner e member).map fun n => ⟨n.key⟩

/-- The full name of a member: below that of its type, where it has one. -/
def memberFullName (e : Edge) (member : Key) (name : Name) : GraphM String := do
  match ← declaringTypeOf e member with
  | some t => return memberName (some (← t.fullName)) name
  | none => return memberName none name

namespace FieldId

/-- The slot of the type of a field. -/
def sigSlot (f : FieldId) : SlotIn Graph (Option Sig) :=
  Graph.slot f (·.sig) fun v e => { e with sig := v }

/-- The slot of the constant. -/
def constantSlot (f : FieldId) : SlotIn Graph (Option ConstantId) :=
  Graph.slot f (·.constant) fun v e => { e with constant := v }

/-- The type of a field. -/
def sig (f : FieldId) : GraphM (Option Sig) :=
  readSlot f (sigSlot f) none (signatureOf (·.fields) (·.signature) Signature.field?)

/-- Sets the type of a field, and forgets its constant. -/
def setSig (f : FieldId) (sig : Option Sig) : GraphM Unit :=
  modify fun g => (constantSlot f).clear ((sigSlot f).publish sig g)

/-- The constant value. -/
def constant (f : FieldId) : GraphM (Option ConstantId) :=
  readSlot f (constantSlot f) none fun loader rid =>
    Loading.constant loader (Token.ofParts .field rid)

/-- The type that lists the field. -/
def declaringType (f : FieldId) : GraphM (Option TypeDefId) := declaringTypeOf .fields f.key

/-- The full name. -/
def fullName (f : FieldId) : GraphM String := do
  memberFullName .fields f.key ((← get).get f).name

/-- Whether the field is static. -/
def isStatic (g : Graph) (f : FieldId) : Bool := FieldFlags.isStatic (g.get f).flags

end FieldId

namespace MethodDefId

/-- The slot of the signature. -/
def sigSlot (m : MethodDefId) : SlotIn Graph (Option (MethodSig TypeDefOrRef)) :=
  Graph.slot m (·.sig) fun v e => { e with sig := v }

/-- The slot of the body. -/
def bodySlot (m : MethodDefId) : SlotIn Graph (Option MethodBody) :=
  Graph.slot m (·.body) fun v e => { e with body := v }

/-- The slot of where the method is imported from. -/
def implMapSlot (m : MethodDefId) : SlotIn Graph (Option ImplMapId) :=
  Graph.slot m (·.implMap) fun v e => { e with implMap := v }

/-- The slot of what the method does for properties and events. -/
def semanticsSlot (m : MethodDefId) : SlotIn Graph Flags :=
  Graph.slot m (·.semantics) fun v e => { e with semantics := v }

/-- The slot of the overrides. -/
def overridesSlot (m : MethodDefId) : SlotIn Graph (List MethodOverride) :=
  Graph.slot m (·.overrides) fun v e => { e with overrides := v }

/-- The slot of the debug records. -/
def debugInfosSlot (m : MethodDefId) : SlotIn Graph (List DebugInfo) :=
  Graph.slot m (·.debugInfos) fun v e => { e with debugInfos := v }

/-- The signature. -/
def sig (m : MethodDefId) : GraphM (Option (MethodSig TypeDefOrRef)) :=
  readSlot m (sigSlot m) none (signatureOf (·.methodDefs) (·.signature) Signature.method?)

/-- The type that lists the method. -/
def declaringType (m : MethodDefId) : GraphM (Option TypeDefId) := declaringTypeOf .methods m.key

/-- The full name. -/
def fullName (m : MethodDefId) : GraphM String := do
  memberFullName .methods m.key ((← get).get m).name

/-- The body, found by the address that the method has now. -/
def body (m : MethodDefId) : GraphM (Option MethodBody) :=
  readSlot m (bodySlot m) none fun loader _ => do
    let g ← get
    let rva := (g.get m).rva
    return if rva = 0 then none else (g.store? loader).bind fun s => s.body? rva

/-- Forgets the body, so that it is read again. -/
def freeBody (m : MethodDefId) : GraphM Unit := modify (bodySlot m).clear

/-- Whether the body has been read or set. -/
def isBodyLoaded (g : Graph) (m : MethodDefId) : Bool := ((bodySlot m).peek g).isSome

/-- Where the method is imported from. -/
def implMap (m : MethodDefId) : GraphM (Option ImplMapId) :=
  readSlot m (implMapSlot m) none fun loader rid =>
    Loading.implMap loader (Token.ofParts .methodDef rid)

/-- What the rows of a store say that a method does, all roles together. -/
def storedSemantics (s : Store) (rid : Nat) : Flags :=
  s.methodSemantics.foldl (fun roles r => if r.method = rid then roles ||| r.semantics else roles) 0

/-- What the method does for properties and events. -/
def semantics (m : MethodDefId) : GraphM Flags :=
  readSlot m (semanticsSlot m) 0 fun loader rid => do
    return (((← get).store? loader).map fun s => storedSemantics s rid).getD 0

/-- Whether the method is a getter. -/
def isGetter (m : MethodDefId) : GraphM Bool := do
  return Flags.has (← semantics m) Semantics.getter

/-- Whether the method is a setter. -/
def isSetter (m : MethodDefId) : GraphM Bool := do
  return Flags.has (← semantics m) Semantics.setter

/-- The parameters, by sequence. -/
def params (m : MethodDefId) : GraphM (List ParamId) := do
  return (← Ownership.items .params m.node).map Id.mk

/-- The generic parameters, by number. -/
def genericParams (m : MethodDefId) : GraphM (List GenericParamId) := do
  return (← Ownership.items .genericParams m.node).map Id.mk

/-- The first parameter of a sequence number. -/
def param? (m : MethodDefId) (sequence : Nat) : GraphM (Option ParamId) := do
  let ps ← params m
  let g ← get
  return ps.find? fun p => (g.get p).sequence == sequence

/-- What the method overrides, as the type that its row belongs to says. -/
def overrides (m : MethodDefId) : GraphM (List MethodOverride) :=
  readSlot m (overridesSlot m) [] fun loader rid => do
    match ← parent? loader .methods (Token.ofParts .methodDef rid) with
    | none => return []
    | some declaring =>
      collect (fun place => do
        match ← rowAt (·.methodImpls) loader place with
        | none => return none
        | some row =>
          if row.body.tag = .methodDef ∧ row.body.row = rid then
            let body? ← methodOf .methodDefOrRef loader row.body
            let declaration? ← methodOf .methodDefOrRef loader row.declaration
            return do return ⟨← body?, ← declaration?⟩
          else return none)
        (← Loading.children loader .methodImpls declaring)

/-- The debug records. -/
def debugInfos (m : MethodDefId) : GraphM (List DebugInfo) :=
  readSlot m (debugInfosSlot m) [] fun loader rid => do
    return (((← get).store? loader).map fun s =>
      s.debugInfosOf (Token.ofParts .methodDef rid)).getD []

/-- Whether the method is a constructor: its name is that of one, and the runtime
gives it a meaning. -/
def isConstructor (g : Graph) (m : MethodDefId) : Bool :=
  let r := g.get m
  MethodFlags.isRuntimeSpecial r.flags && (r.name.isText ".ctor" || r.name.isText ".cctor")

end MethodDefId

namespace ParamId

/-- The slot of the constant. -/
def constantSlot (p : ParamId) : SlotIn Graph (Option ConstantId) :=
  Graph.slot p (·.constant) fun v e => { e with constant := v }

/-- The default value. -/
def constant (p : ParamId) : GraphM (Option ConstantId) :=
  readSlot p (constantSlot p) none fun loader rid =>
    Loading.constant loader (Token.ofParts .param rid)

/-- The method that lists the parameter. -/
def declaringMethod (p : ParamId) : GraphM (Option MethodDefId) := do
  return (← Ownership.owner .params p.key).map fun n => ⟨n.key⟩

/-- Whether the parameter stands for the return value. -/
def isReturnValue (g : Graph) (p : ParamId) : Bool := (g.get p).sequence == 0

end ParamId

/-- The methods associated with a row, each with what it does. -/
def accessorsOf (loader : Nat) (association : Token) : GraphM (List (Flags × MethodDefId)) := do
  collect (fun place => do
    match ← rowAt (·.methodSemantics) loader place with
    | none => return none
    | some row => return (← shared .methodDef loader row.method).map fun m => (row.semantics, m))
    (← children loader .methodSemantics association)

/-- Adds a method to the accessors of a property: by the first of its roles among
getter, setter and other. -/
def PropertyAccessors.insert (a : PropertyAccessors) (role : Flags) (m : MethodDefId) :
    PropertyAccessors :=
  if Flags.has role Semantics.getter then { a with getters := a.getters ++ [m] }
  else if Flags.has role Semantics.setter then { a with setters := a.setters ++ [m] }
  else if Flags.has role Semantics.other then { a with others := a.others ++ [m] }
  else a

/-- Adds a method to the accessors of an event: by the first of its roles among
adding, removing, raising and other.  Of the first three, the first method stays. -/
def EventAccessors.insert (a : EventAccessors) (role : Flags) (m : MethodDefId) :
    EventAccessors :=
  if Flags.has role Semantics.addOn then { a with add := a.add.or (some m) }
  else if Flags.has role Semantics.removeOn then { a with remove := a.remove.or (some m) }
  else if Flags.has role Semantics.fire then { a with fire := a.fire.or (some m) }
  else if Flags.has role Semantics.other then { a with others := a.others ++ [m] }
  else a

namespace PropertyId

/-- The slot of the signature. -/
def sigSlot (p : PropertyId) : SlotIn Graph (Option (PropertySig TypeDefOrRef)) :=
  Graph.slot p (·.sig) fun v e => { e with sig := v }

/-- The slot of the accessors. -/
def accessorsSlot (p : PropertyId) : SlotIn Graph PropertyAccessors :=
  Graph.slot p (·.accessors) fun v e => { e with accessors := v }

/-- The slot of the constant. -/
def constantSlot (p : PropertyId) : SlotIn Graph (Option ConstantId) :=
  Graph.slot p (·.constant) fun v e => { e with constant := v }

/-- The signature. -/
def sig (p : PropertyId) : GraphM (Option (PropertySig TypeDefOrRef)) :=
  readSlot p (sigSlot p) none (signatureOf (·.properties) (·.signature) Signature.property?)

/-- Sets the signature, and forgets the constant. -/
def setSig (p : PropertyId) (sig : Option (PropertySig TypeDefOrRef)) : GraphM Unit :=
  modify fun g => (constantSlot p).clear ((sigSlot p).publish sig g)

/-- The type that lists the property. -/
def declaringType (p : PropertyId) : GraphM (Option TypeDefId) := declaringTypeOf .properties p.key

/-- The accessors. -/
def accessors (p : PropertyId) : GraphM PropertyAccessors :=
  readSlot p (accessorsSlot p) default fun loader rid => do
    return (← accessorsOf loader (Token.ofParts .property rid)).foldl
      (fun a (role, m) => a.insert role m) default

/-- The default value. -/
def constant (p : PropertyId) : GraphM (Option ConstantId) :=
  readSlot p (constantSlot p) none fun loader rid =>
    Loading.constant loader (Token.ofParts .property rid)

end PropertyId

namespace EventId

/-- The slot of the handler type. -/
def eventTypeSlot (e : EventId) : SlotIn Graph (Option TypeDefOrRef) :=
  Graph.slot e (·.eventType) fun v r => { r with eventType := v }

/-- The slot of the accessors. -/
def accessorsSlot (e : EventId) : SlotIn Graph EventAccessors :=
  Graph.slot e (·.accessors) fun v r => { r with accessors := v }

/-- The handler type. -/
def eventType (e : EventId) : GraphM (Option TypeDefOrRef) :=
  readSlot e (eventTypeSlot e) none fun loader rid => do
    match ← rowAt (·.events) loader rid with
    | none => return none
    | some row => typeDefOrRef loader row.eventType

/-- The type that lists the event. -/
def declaringType (e : EventId) : GraphM (Option TypeDefId) := declaringTypeOf .events e.key

/-- The accessors. -/
def accessors (e : EventId) : GraphM EventAccessors :=
  readSlot e (accessorsSlot e) default fun loader rid => do
    return (← accessorsOf loader (Token.ofParts .event rid)).foldl
      (fun a (role, m) => a.insert role m) default

end EventId

namespace GenericParamId

/-- The slot of the constraints. -/
def constraintsSlot (p : GenericParamId) : SlotIn Graph (List ConstraintId) :=
  Graph.slot p (·.constraints) fun v e => { e with constraints := v }

/-- The type or method that lists the parameter. -/
def owner (p : GenericParamId) : GraphM (Option Node) := Ownership.owner .genericParams p.key

/-- The constraints. -/
def constraints (p : GenericParamId) : GraphM (List ConstraintId) :=
  readSlot p (constraintsSlot p) [] fun loader rid => do
    collect (fun place => do
      match ← rowAt (·.constraints) loader place with
      | none => return none
      | some row =>
        let constraint ← typeDefOrRef loader row.constraint
        let carried ← attributes loader (Token.ofParts .genericParamConstraint row.rid)
        let id ← makeUnread .constraint ⟨row.rid, row.token, constraint⟩
        modify ((Graph.attributeSlot id.node).publish carried)
        return some id)
      (← children loader .genericParamConstraints (Token.ofParts .genericParam rid))

end GenericParamId

namespace MemberRefId

/-- The slot of the parent. -/
def parentSlot (m : MemberRefId) : SlotIn Graph (Option MemberParent) :=
  Graph.slot m (·.parent) fun v e => { e with parent := v }

/-- The slot of the signature. -/
def sigSlot (m : MemberRefId) : SlotIn Graph (Option (Signature TypeDefOrRef)) :=
  Graph.slot m (·.sig) fun v e => { e with sig := v }

/-- The module that the reference belongs to. -/
def module (m : MemberRefId) : GraphM (Option ModuleId) := do
  let g ← get
  return g.upgrade (g.get m).module

/-- Where the member is to be looked for. -/
def parent (m : MemberRefId) : GraphM (Option MemberParent) :=
  readSlot m (parentSlot m) none fun loader rid => do
    match ← rowAt (·.memberRefs) loader rid with
    | none => return none
    | some row => memberParent loader row.parent

/-- The signature. -/
def sig (m : MemberRefId) : GraphM (Option (Signature TypeDefOrRef)) :=
  readSlot m (sigSlot m) none (signatureOf (·.memberRefs) (·.signature) some)

/-- The full name of the parent; empty where there is none. -/
def parentName (m : MemberRefId) : GraphM (Option String) := do
  match ← parent m with
  | some (.typeDef t) => some <$> t.fullName
  | some (.typeRef r) => some <$> r.fullName
  | some (.typeSpec s) => s.fullName
  | some (.moduleRef r) => return some ((← get).get r).name.lossy
  | some (.methodDef d) =>
    match ← d.declaringType with
    | some t => some <$> t.fullName
    | none => return some ""
  | none => return some ""

/-- The full name: below that of the parent, where that is not empty. -/
def fullName (m : MemberRefId) : GraphM (Option String) := do
  let parent? ← parentName m
  let name := ((← get).get m).name
  return parent?.map fun owner => memberName (if owner.isEmpty then none else some owner) name

end MemberRefId

namespace MethodSpecId

/-- The slot of the generic method. -/
def methodSlot (s : MethodSpecId) : SlotIn Graph (Option MethodDefOrRef) :=
  Graph.slot s (·.method) fun v e => { e with method := v }

/-- The slot of the arguments. -/
def argsSlot (s : MethodSpecId) : SlotIn Graph (Option (List Sig)) :=
  Graph.slot s (·.args) fun v e => { e with args := v }

/-- The generic method. -/
def method (s : MethodSpecId) : GraphM (Option MethodDefOrRef) :=
  readSlot s (methodSlot s) none fun loader rid => do
    match ← rowAt (·.methodSpecs) loader rid with
    | none => return none
    | some row => methodOf .methodDefOrRef loader row.method

/-- The arguments. -/
def args (s : MethodSpecId) : GraphM (Option (List Sig)) :=
  readSlot s (argsSlot s) none
    (signatureOf (·.methodSpecs) (·.instantiation) Signature.instantiation?)

end MethodSpecId

/-- The name of the method referred to. -/
def MethodDefOrRef.name (g : Graph) : MethodDefOrRef → Name
  | methodDef m => (g.get m).name
  | memberRef m => (g.get m).name

end CliMetadata
