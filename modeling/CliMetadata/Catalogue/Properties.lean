import CliMetadata.Catalogue.Value
import CliMetadata.Inspection

/-!
# Properties by name

What can be asked about an entity, by kind.  The main properties are those of a
full account of an entity, in the order of the account; more can be asked for one
by one.
-/

namespace CliMetadata

/-- Named questions. -/
abbrev Questions := List (String × GraphM Value)

/-- What can be asked about an entity. -/
structure Properties where
  main : Questions
  more : Questions

namespace Properties

variable {k : Kind} {ρ α : Type} [Recorded k ρ] [ToValue α]

/-- The answer that a computation gives. -/
def shown (x : GraphM α) : GraphM Value := toValue <$> x

/-- The answer that a text is which may have no end. -/
def written (x : GraphM (Option String)) : GraphM Value := Value.written <$> x

/-- The answer that the graph gives as it is. -/
def seen (f : Graph → α) : GraphM Value := do return toValue (f (← get))

/-- The answer that an entity's own columns give. -/
def own (id : Id k) (f : ρ → α) : GraphM Value := seen fun g => f (g.get id)

/-- The row number. -/
def rid (n : Node) : String × GraphM Value := ("rid", seen fun g => g.rid n)

/-- The token. -/
def token (n : Node) : String × GraphM Value := ("token", seen fun g => g.token n)

/-- The row number and the origin. -/
def head (n : Node) : Questions := [rid n, ("origin", seen fun g => g.origin n)]

/-- The attributes. -/
def attributes (n : Node) : String × GraphM Value :=
  ("custom_attributes", shown (customAttributes n))

/-- The security declarations. -/
def securities (n : Node) : Questions := [("decl_securities", shown (declSecurities n))]

/-- Whether there are security declarations. -/
def hasSecurities (n : Node) : Questions :=
  [("has_decl_securities", shown (do return !(← declSecurities n).isEmpty))]

/-- The properties of a module. -/
def module (m : ModuleId) : Properties where
  main := head m.node ++
    [("name", own m (·.name)),
      ("mvid", own m (·.mvid)),
      ("assembly", shown m.assembly),
      ("is_manifest", shown m.isManifest),
      ("types", shown m.types),
      ("global_type", shown m.globalType),
      ("exported_types", shown m.exportedTypes),
      ("resources", shown m.resources),
      ("assembly_ref_count", seen m.assemblyRefCount),
      attributes m.node]
  more :=
    [token m.node,
      ("all_types", shown m.allTypes),
      ("materialized_count", seen fun g =>
        (m.loader? g).map fun _ => m.materializedCount g fun _ => true),
      ("policy", seen fun g => (m.loader? g).map fun l => l.policy.name),
      ("loader_module", seen fun g => (m.loader? g).map fun _ => m)]

/-- The properties of an assembly. -/
def assembly (a : AssemblyId) : Properties where
  main := head a.node ++
    [("identity", own a (·.identity)),
      ("flags", own a (·.flags)),
      ("hash_algorithm", own a (·.hashAlgorithm)),
      ("public_key_token", seen a.publicKeyToken),
      ("modules", shown a.modules),
      ("manifest_module", shown a.manifestModule),
      attributes a.node] ++ securities a.node ++ hasSecurities a.node
  more := [token a.node, ("name", own a (·.identity.name))]

/-- The properties of a type. -/
def typeDef (t : TypeDefId) : Properties where
  main := head t.node ++
    [("flags", own t (·.flags)),
      ("namespace", own t (·.space)),
      ("full_name", shown t.fullName),
      ("base_type", shown t.base),
      ("owner_module", shown t.ownerModule),
      ("module", shown t.module),
      ("declaring_type", shown t.declaringType),
      ("is_nested", shown t.isNested),
      ("is_interface", own t fun e => TypeFlags.isInterface e.flags),
      ("is_global", shown t.isGlobal),
      ("fields", shown t.fields),
      ("methods", shown t.methods),
      ("properties", shown t.properties),
      ("events", shown t.events),
      ("nested_types", shown t.nestedTypes),
      ("generic_params", shown t.genericParams),
      attributes t.node] ++ securities t.node ++ hasSecurities t.node
  more := [token t.node, ("name", own t (·.name))]

/-- The properties of a type reference. -/
def typeRef (r : TypeRefId) : Properties where
  main := head r.node ++
    [("namespace", own r (·.space)),
      ("full_name", shown r.fullName),
      ("module", shown r.module),
      ("scope", do
        let s ← r.scope
        seen fun g => s.bind fun s => s.upgrade? g),
      ("scope_token", do
        let s ← r.scope
        seen fun g => s.map fun s => s.token g),
      ("declaring_type", shown r.declaringType),
      ("is_nested", shown r.isNested),
      ("non_nested", shown r.nonNested),
      attributes r.node]
  more :=
    [token r.node,
      ("name", own r (·.name)),
      ("nesting_chain", shown r.nestingChain),
      ("scope_debug", do
        match ← r.scope with
        | some s => shown s.inspect
        | none => return .nothing)]

/-- The properties of a type specification. -/
def typeSpec (s : TypeSpecId) : Properties where
  main := head s.node ++
    [("type_sig", shown s.sig),
      ("scope_type", shown s.scopeType),
      ("full_name", written s.fullName),
      attributes s.node]
  more := [token s.node]

/-- The properties of a field. -/
def field (f : FieldId) : Properties where
  main := head f.node ++
    [("flags", own f (·.flags)),
      ("full_name", shown f.fullName),
      ("is_static", seen f.isStatic),
      ("signature", shown f.sig),
      ("declaring_type", shown f.declaringType),
      ("constant", shown f.constant),
      attributes f.node]
  more := [token f.node, ("name", own f (·.name))]

/-- An override with what its methods go by. -/
def overrideValue (g : Graph) (o : MethodOverride) : Value :=
  .record
    [("body", toValue o.body), ("declaration", toValue o.declaration),
      ("tokens", toValue [g.token o.body.node, g.token o.declaration.node]),
      ("names", toValue [o.body.name g, o.declaration.name g])]

/-- The properties of a method. -/
def methodDef (m : MethodDefId) : Properties where
  main := head m.node ++
    [("flags", own m (·.flags)),
      ("impl_flags", own m (·.implFlags)),
      ("rva", own m (·.rva)),
      ("full_name", shown m.fullName),
      ("access", own m fun e => MethodFlags.access e.flags),
      ("modifiers", own m fun e => MethodFlags.modifiers e.flags),
      ("is_static", own m fun e => MethodFlags.isStatic e.flags),
      ("is_virtual", own m fun e => MethodFlags.isVirtual e.flags),
      ("is_constructor", seen m.isConstructor),
      ("signature", shown m.sig),
      ("declaring_type", shown m.declaringType),
      ("body", shown m.body),
      ("impl_map", shown m.implMap),
      ("semantics", shown m.semantics),
      ("is_getter", shown m.isGetter),
      ("is_setter", shown m.isSetter),
      ("params", shown m.params),
      ("generic_params", shown m.genericParams),
      ("overrides", do
        let overrides ← m.overrides
        seen fun g => overrides.map (overrideValue g)),
      attributes m.node] ++ securities m.node ++
    [("custom_debug_infos", shown m.debugInfos)]
  more :=
    [token m.node, ("name", own m (·.name)), ("is_body_loaded", seen m.isBodyLoaded)]
      ++ hasSecurities m.node

/-- The properties of a parameter. -/
def param (p : ParamId) : Properties where
  main := head p.node ++
    [("flags", own p (·.flags)),
      ("sequence", own p (·.sequence)),
      ("is_return_value", seen p.isReturnValue),
      ("declaring_method", shown p.declaringMethod),
      ("constant", shown p.constant),
      attributes p.node]
  more := [token p.node, ("name", own p (·.name))]

/-- The properties of a property. -/
def property (p : PropertyId) : Properties where
  main := head p.node ++
    [("flags", own p (·.flags)),
      ("signature", shown p.sig),
      ("declaring_type", shown p.declaringType),
      ("getters", shown (do return (← p.accessors).getters)),
      ("setters", shown (do return (← p.accessors).setters)),
      ("others", shown (do return (← p.accessors).others)),
      ("constant", shown p.constant),
      attributes p.node]
  more := [token p.node, ("name", own p (·.name))]

/-- The properties of an event. -/
def event (e : EventId) : Properties where
  main := head e.node ++
    [("flags", own e (·.flags)),
      ("event_type", shown e.eventType),
      ("declaring_type", shown e.declaringType),
      ("add", shown (do return (← e.accessors).add)),
      ("remove", shown (do return (← e.accessors).remove)),
      ("fire", shown (do return (← e.accessors).fire)),
      ("others", shown (do return (← e.accessors).others)),
      attributes e.node]
  more := [token e.node, ("name", own e (·.name))]

/-- The properties of a member reference. -/
def memberRef (m : MemberRefId) : Properties where
  main := head m.node ++
    [("full_name", written m.fullName),
      ("module", shown m.module),
      ("class", shown m.parent),
      ("signature", shown m.sig),
      ("is_method_ref", shown (do return ((← m.sig).bind Signature.method?).isSome)),
      ("is_field_ref", shown (do return ((← m.sig).bind Signature.field?).isSome)),
      attributes m.node]
  more :=
    [token m.node,
      ("name", own m (·.name)),
      ("method_sig", shown (do return (← m.sig).bind Signature.method?)),
      ("field_sig", shown (do return (← m.sig).bind Signature.field?))]

/-- The properties of an instantiated method. -/
def methodSpec (s : MethodSpecId) : Properties where
  main := head s.node ++
    [("method", shown s.method),
      ("instantiation", shown s.args),
      attributes s.node]
  more := [token s.node]

/-- The properties of a generic parameter. -/
def genericParam (p : GenericParamId) : Properties where
  main := head p.node ++
    [("number", own p (·.number)),
      ("flags", own p (·.flags)),
      ("is_covariant", own p fun e => GenericParamFlags.isCovariant e.flags),
      ("is_contravariant", own p fun e => GenericParamFlags.isContravariant e.flags),
      ("owner", shown p.owner),
      ("owner_token", do
        let o ← p.owner
        seen fun g => o.map g.token),
      ("constraints", shown p.constraints),
      attributes p.node]
  more := [token p.node, ("name", own p (·.name))]

/-- The properties of a constraint. -/
def constraint (c : ConstraintId) : Properties where
  main := [rid c.node, ("constraint", own c (·.constraint)), attributes c.node]
  more := [token c.node]

/-- The properties of an assembly reference. -/
def assemblyRef (r : AssemblyRefId) : Properties where
  main :=
    [rid r.node,
      ("version", own r (·.version)),
      ("culture", own r (·.culture)),
      ("identifier", own r (·.strongName)),
      ("flags", own r (·.flags)),
      ("hash_value", own r (·.hashValue)),
      ("identity", own r fun e => e.identity),
      ("is_windows_runtime", own r fun e => e.isWindowsRuntime),
      attributes r.node]
  more := [token r.node, ("name", own r (·.name))]

/-- The properties of a module reference. -/
def moduleRef (r : ModuleRefId) : Properties where
  main := [rid r.node, attributes r.node]
  more := [token r.node, ("name", own r (·.name))]

/-- The properties of a file. -/
def file (f : FileId) : Properties where
  main :=
    [rid f.node,
      ("flags", own f (·.flags)),
      ("hash_value", own f (·.hashValue)),
      ("contains_metadata", own f fun e => FileFlags.containsMetadata e.flags),
      attributes f.node]
  more := [token f.node, ("name", own f (·.name))]

/-- The entity that a type is defined in. -/
def definition : DefinitionAssembly → Node
  | .assembly a => a.node
  | .reference r => r.node

/-- The properties of an exported type. -/
def exportedType (e : ExportedTypeId) : Properties where
  main := head e.node ++
    [("module", shown e.module),
      ("flags", own e (·.flags)),
      ("type_def_id", own e (·.typeDefId)),
      ("namespace", own e (·.space)),
      ("full_name", shown e.fullName),
      ("is_forwarder", seen e.isForwarder),
      ("implementation", shown e.implementation),
      ("declaring_type", shown e.declaringType),
      ("is_nested", shown e.isNested),
      ("definition_assembly", shown (do return (← e.definitionAssembly).map definition)),
      attributes e.node]
  more := [token e.node, ("name", own e (·.name))]

/-- The properties of a resource. -/
def resource (r : ResourceId) : Properties where
  main := head r.node ++
    [("flags", own r (·.flags)),
      ("is_public", own r fun e => ResourceFlags.isPublic e.flags),
      ("is_private", own r fun e => ResourceFlags.isPrivate e.flags),
      ("offset", own r (·.offset)),
      ("implementation", shown r.implementation),
      ("resource_type", shown (do
        return (ResourceType.of? (← r.implementation)).map ResourceType.name)),
      ("assembly", shown r.assembly),
      ("file", shown r.file),
      ("file_name", shown r.fileName),
      ("data", shown r.data),
      attributes r.node]
  more := [token r.node, ("name", own r (·.name))]

/-- The properties of a custom attribute. -/
def customAttribute (a : CustomAttributeId) : Properties where
  main := [rid a.node, ("constructor", own a (·.constructor)), ("value", own a (·.value))]
  more := [token a.node]

/-- The properties of a constant. -/
def constant (c : ConstantId) : Properties where
  main := [rid c.node, ("type", own c (·.elementType)), ("value", own c (·.value))]
  more := [token c.node]

/-- The properties of where a native method is imported from. -/
def implMap (i : ImplMapId) : Properties where
  main := [rid i.node, ("flags", own i (·.flags)), ("scope", own i (·.scope))]
  more := [token i.node, ("name", own i (·.name))]

/-- The properties of a security declaration. -/
def security (s : SecurityId) : Properties where
  main :=
    [rid s.node,
      ("action", own s (·.action)),
      ("security_action", own s fun e => e.securityAction?.map SecurityAction.name),
      ("is_binary", own s fun e => e.isBinary),
      ("permission_set", own s (·.permissionSet)),
      attributes s.node]
  more := [token s.node]

/-- The properties of an entity. -/
def ofNode (n : Node) : Properties :=
  match n.kind with
  | .module => module ⟨n.key⟩
  | .assembly => assembly ⟨n.key⟩
  | .typeDef => typeDef ⟨n.key⟩
  | .typeRef => typeRef ⟨n.key⟩
  | .typeSpec => typeSpec ⟨n.key⟩
  | .field => field ⟨n.key⟩
  | .methodDef => methodDef ⟨n.key⟩
  | .param => param ⟨n.key⟩
  | .property => property ⟨n.key⟩
  | .event => event ⟨n.key⟩
  | .memberRef => memberRef ⟨n.key⟩
  | .methodSpec => methodSpec ⟨n.key⟩
  | .genericParam => genericParam ⟨n.key⟩
  | .constraint => constraint ⟨n.key⟩
  | .assemblyRef => assemblyRef ⟨n.key⟩
  | .moduleRef => moduleRef ⟨n.key⟩
  | .file => file ⟨n.key⟩
  | .exportedType => exportedType ⟨n.key⟩
  | .resource => resource ⟨n.key⟩
  | .customAttribute => customAttribute ⟨n.key⟩
  | .constant => constant ⟨n.key⟩
  | .implMap => implMap ⟨n.key⟩
  | .security => security ⟨n.key⟩

/-- The question of a name. -/
def find? (p : Properties) (name : String) : Option (GraphM Value) :=
  (p.main ++ p.more).lookup name

end Properties
end CliMetadata
