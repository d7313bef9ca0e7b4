import CliMetadata.Graph.Basic

/-!
# Entities as their rows have them

For each kind: its structure, and how a row gives the columns of an entity.
Kinds without shared entities (modules, assemblies and what other entities
carry) are made from their rows elsewhere, and have no `ofRow?` here.
-/

namespace CliMetadata

/-- A culture as it is stored; an empty one means none. -/
def storedCulture (s : Store) (offset : Nat) : Option String :=
  let name := s.string offset
  if name.isEmpty then none else some name.lossy

instance : Recorded .module Module where
  pack := .module
  unpack?
    | .module e => some e
    | _ => none
  unpack?_pack _ := rfl
  blank := ⟨0, .inMemory, .empty, Guid.zero, none, none, none⟩
  ofRow? _ _ _ := none

instance : Recorded .assembly Assembly where
  pack := .assembly
  unpack?
    | .assembly e => some e
    | _ => none
  unpack?_pack _ := rfl
  blank := ⟨0, .inMemory, default, HashAlgorithm.sha1, 0⟩
  ofRow? _ _ _ := none

instance : Recorded .typeDef TypeDef where
  pack := .typeDef
  unpack?
    | .typeDef e => some e
    | _ => none
  unpack?_pack _ := rfl
  blank := ⟨0, .inMemory, 0, .empty, .empty, none⟩
  ofRow? s loader place := (Store.nth s.typeDefs place).map fun r =>
    ⟨r.rid, .row loader r.rid, r.flags, s.string r.space, s.string r.name, none⟩

instance : Recorded .typeRef TypeRef where
  pack := .typeRef
  unpack?
    | .typeRef e => some e
    | _ => none
  unpack?_pack _ := rfl
  blank := ⟨0, .inMemory, ⟨.built 0⟩, .empty, .empty, none⟩
  ofRow? s loader place := (Store.nth s.typeRefs place).map fun r =>
    ⟨r.rid, .row loader r.rid, ⟨.built loader⟩, s.string r.space, s.string r.name, none⟩

instance : Recorded .typeSpec TypeSpec where
  pack := .typeSpec
  unpack?
    | .typeSpec e => some e
    | _ => none
  unpack?_pack _ := rfl
  blank := ⟨0, .inMemory, none⟩
  ofRow? s loader place := (Store.nth s.typeSpecs place).map fun r =>
    ⟨r.rid, .row loader r.rid, none⟩

instance : Recorded .field Field where
  pack := .field
  unpack?
    | .field e => some e
    | _ => none
  unpack?_pack _ := rfl
  blank := ⟨0, .inMemory, 0, .empty, none, none⟩
  ofRow? s loader place := (Store.nth s.fields place).map fun r =>
    ⟨r.rid, .row loader r.rid, r.flags, s.string r.name, none, none⟩

instance : Recorded .methodDef MethodDef where
  pack := .methodDef
  unpack?
    | .methodDef e => some e
    | _ => none
  unpack?_pack _ := rfl
  blank := ⟨0, .inMemory, 0, 0, 0, .empty, none, none, none, none, none, none⟩
  ofRow? s loader place := (Store.nth s.methodDefs place).map fun r =>
    ⟨r.rid, .row loader r.rid, r.rva, r.implFlags, r.flags, s.string r.name, none, none, none,
      none, none, none⟩

instance : Recorded .param Param where
  pack := .param
  unpack?
    | .param e => some e
    | _ => none
  unpack?_pack _ := rfl
  blank := ⟨0, .inMemory, 0, 0, .empty, none⟩
  ofRow? s loader place := (Store.nth s.params place).map fun r =>
    ⟨r.rid, .row loader r.rid, r.flags, r.sequence, s.string r.name, none⟩

instance : Recorded .property Property where
  pack := .property
  unpack?
    | .property e => some e
    | _ => none
  unpack?_pack _ := rfl
  blank := ⟨0, .inMemory, 0, .empty, none, none, none⟩
  ofRow? s loader place := (Store.nth s.properties place).map fun r =>
    ⟨r.rid, .row loader r.rid, r.flags, s.string r.name, none, none, none⟩

instance : Recorded .event Event where
  pack := .event
  unpack?
    | .event e => some e
    | _ => none
  unpack?_pack _ := rfl
  blank := ⟨0, .inMemory, 0, .empty, none, none⟩
  ofRow? s loader place := (Store.nth s.events place).map fun r =>
    ⟨r.rid, .row loader r.rid, r.flags, s.string r.name, none, none⟩

instance : Recorded .memberRef MemberRef where
  pack := .memberRef
  unpack?
    | .memberRef e => some e
    | _ => none
  unpack?_pack _ := rfl
  blank := ⟨0, .inMemory, ⟨.built 0⟩, .empty, none, none⟩
  ofRow? s loader place := (Store.nth s.memberRefs place).map fun r =>
    ⟨r.rid, .row loader r.rid, ⟨.built loader⟩, s.string r.name, none, none⟩

instance : Recorded .methodSpec MethodSpec where
  pack := .methodSpec
  unpack?
    | .methodSpec e => some e
    | _ => none
  unpack?_pack _ := rfl
  blank := ⟨0, .inMemory, none, none⟩
  ofRow? s loader place := (Store.nth s.methodSpecs place).map fun r =>
    ⟨r.rid, .row loader r.rid, none, none⟩

instance : Recorded .genericParam GenericParam where
  pack := .genericParam
  unpack?
    | .genericParam e => some e
    | _ => none
  unpack?_pack _ := rfl
  blank := ⟨0, .inMemory, 0, 0, .empty, none⟩
  ofRow? s loader place := (Store.nth s.genericParams place).map fun r =>
    ⟨r.rid, .row loader r.rid, r.number, r.flags, s.string r.name, none⟩

instance : Recorded .constraint Constraint where
  pack := .constraint
  unpack?
    | .constraint e => some e
    | _ => none
  unpack?_pack _ := rfl
  blank := ⟨0, Token.ofParts .genericParamConstraint 0, none⟩
  ofRow? _ _ _ := none

instance : Recorded .assemblyRef AssemblyRef where
  pack := .assemblyRef
  unpack?
    | .assemblyRef e => some e
    | _ => none
  unpack?_pack _ := rfl
  blank := ⟨0, Token.ofParts .assemblyRef 0, .empty, .unknown, none, none, 0, []⟩
  ofRow? s _ place := (Store.nth s.assemblyRefs place).map fun r =>
    ⟨r.rid, r.token, s.string r.name, r.version, storedCulture s r.culture,
      StrongName.ofStored? (s.blob r.publicKeyOrToken) (Flags.has r.flags AssemblyFlags.publicKey),
      r.flags, s.blob r.hashValue⟩

instance : Recorded .moduleRef ModuleRef where
  pack := .moduleRef
  unpack?
    | .moduleRef e => some e
    | _ => none
  unpack?_pack _ := rfl
  blank := ⟨0, Token.ofParts .moduleRef 0, .empty⟩
  ofRow? s _ place := (Store.nth s.moduleRefs place).map fun r => ⟨r.rid, r.token, s.string r.name⟩

instance : Recorded .file File where
  pack := .file
  unpack?
    | .file e => some e
    | _ => none
  unpack?_pack _ := rfl
  blank := ⟨0, Token.ofParts .file 0, 0, .empty, []⟩
  ofRow? s _ place := (Store.nth s.files place).map fun r =>
    ⟨r.rid, r.token, r.flags, s.string r.name, s.blob r.hashValue⟩

instance : Recorded .exportedType ExportedType where
  pack := .exportedType
  unpack?
    | .exportedType e => some e
    | _ => none
  unpack?_pack _ := rfl
  blank := ⟨0, .inMemory, ⟨.built 0⟩, 0, 0, .empty, .empty, none⟩
  ofRow? s loader place := (Store.nth s.exportedTypes place).map fun r =>
    ⟨r.rid, .row loader r.rid, ⟨.built loader⟩, r.flags, r.typeDefId, s.string r.space,
      s.string r.name, none⟩

instance : Recorded .resource Resource where
  pack := .resource
  unpack?
    | .resource e => some e
    | _ => none
  unpack?_pack _ := rfl
  blank := ⟨0, .inMemory, 0, 0, .empty, none, none⟩
  ofRow? s loader place := (Store.nth s.resources place).map fun r =>
    ⟨r.rid, .row loader r.rid, r.offset, r.flags, s.string r.name, none, none⟩

instance : Recorded .customAttribute CustomAttribute where
  pack := .customAttribute
  unpack?
    | .customAttribute e => some e
    | _ => none
  unpack?_pack _ := rfl
  blank := ⟨0, Token.ofParts .customAttribute 0, none, []⟩
  ofRow? _ _ _ := none

instance : Recorded .constant Constant where
  pack := .constant
  unpack?
    | .constant e => some e
    | _ => none
  unpack?_pack _ := rfl
  blank := ⟨0, Token.ofParts .constant 0, 0, []⟩
  ofRow? _ _ _ := none

instance : Recorded .implMap ImplMap where
  pack := .implMap
  unpack?
    | .implMap e => some e
    | _ => none
  unpack?_pack _ := rfl
  blank := ⟨0, Token.ofParts .implMap 0, 0, .empty, none⟩
  ofRow? _ _ _ := none

instance : Recorded .security DeclSecurity where
  pack := .security
  unpack?
    | .security e => some e
    | _ => none
  unpack?_pack _ := rfl
  blank := ⟨0, Token.ofParts .declSecurity 0, 0, []⟩
  ofRow? _ _ _ := none

namespace Entity

/-- The row number of an entity. -/
def rid : Entity → Nat
  | module e => e.rid
  | assembly e => e.rid
  | typeDef e => e.rid
  | typeRef e => e.rid
  | typeSpec e => e.rid
  | field e => e.rid
  | methodDef e => e.rid
  | param e => e.rid
  | property e => e.rid
  | event e => e.rid
  | memberRef e => e.rid
  | methodSpec e => e.rid
  | genericParam e => e.rid
  | constraint e => e.rid
  | assemblyRef e => e.rid
  | moduleRef e => e.rid
  | file e => e.rid
  | exportedType e => e.rid
  | resource e => e.rid
  | customAttribute e => e.rid
  | constant e => e.rid
  | implMap e => e.rid
  | security e => e.rid

/-- Where an entity comes from, for the kinds that remember it. -/
def origin? : Entity → Option Origin
  | module e => some e.origin
  | assembly e => some e.origin
  | typeDef e => some e.origin
  | typeRef e => some e.origin
  | typeSpec e => some e.origin
  | field e => some e.origin
  | methodDef e => some e.origin
  | param e => some e.origin
  | property e => some e.origin
  | event e => some e.origin
  | memberRef e => some e.origin
  | methodSpec e => some e.origin
  | genericParam e => some e.origin
  | exportedType e => some e.origin
  | resource e => some e.origin
  | constraint _ | assemblyRef _ | moduleRef _ | file _ | customAttribute _ | constant _
  | implMap _ | security _ => none

/-- An entity with another row number, for the kinds whose number can be set. -/
def withRid (rid : Nat) : Entity → Entity
  | module e => module { e with rid }
  | assembly e => assembly { e with rid }
  | typeDef e => typeDef { e with rid }
  | typeRef e => typeRef { e with rid }
  | typeSpec e => typeSpec { e with rid }
  | field e => field { e with rid }
  | methodDef e => methodDef { e with rid }
  | param e => param { e with rid }
  | property e => property { e with rid }
  | event e => event { e with rid }
  | memberRef e => memberRef { e with rid }
  | methodSpec e => methodSpec { e with rid }
  | genericParam e => genericParam { e with rid }
  | exportedType e => exportedType { e with rid }
  | resource e => resource { e with rid }
  | other => other

/-- The token that an entity was given with its row, for the kinds whose token
does not follow their number. -/
def fixedToken? : Entity → Option Token
  | constraint e => some e.token
  | assemblyRef e => some e.token
  | moduleRef e => some e.token
  | file e => some e.token
  | customAttribute e => some e.token
  | constant e => some e.token
  | implMap e => some e.token
  | security e => some e.token
  | _ => none

end Entity

/-- What is an entity's own, for any kind. -/
def Graph.entity (g : Graph) (n : Node) : Entity :=
  match n.kind with
  | .module => .module (g.get (⟨n.key⟩ : ModuleId))
  | .assembly => .assembly (g.get (⟨n.key⟩ : AssemblyId))
  | .typeDef => .typeDef (g.get (⟨n.key⟩ : TypeDefId))
  | .typeRef => .typeRef (g.get (⟨n.key⟩ : TypeRefId))
  | .typeSpec => .typeSpec (g.get (⟨n.key⟩ : TypeSpecId))
  | .field => .field (g.get (⟨n.key⟩ : FieldId))
  | .methodDef => .methodDef (g.get (⟨n.key⟩ : MethodDefId))
  | .param => .param (g.get (⟨n.key⟩ : ParamId))
  | .property => .property (g.get (⟨n.key⟩ : PropertyId))
  | .event => .event (g.get (⟨n.key⟩ : EventId))
  | .memberRef => .memberRef (g.get (⟨n.key⟩ : MemberRefId))
  | .methodSpec => .methodSpec (g.get (⟨n.key⟩ : MethodSpecId))
  | .genericParam => .genericParam (g.get (⟨n.key⟩ : GenericParamId))
  | .constraint => .constraint (g.get (⟨n.key⟩ : ConstraintId))
  | .assemblyRef => .assemblyRef (g.get (⟨n.key⟩ : AssemblyRefId))
  | .moduleRef => .moduleRef (g.get (⟨n.key⟩ : ModuleRefId))
  | .file => .file (g.get (⟨n.key⟩ : FileId))
  | .exportedType => .exportedType (g.get (⟨n.key⟩ : ExportedTypeId))
  | .resource => .resource (g.get (⟨n.key⟩ : ResourceId))
  | .customAttribute => .customAttribute (g.get (⟨n.key⟩ : CustomAttributeId))
  | .constant => .constant (g.get (⟨n.key⟩ : ConstantId))
  | .implMap => .implMap (g.get (⟨n.key⟩ : ImplMapId))
  | .security => .security (g.get (⟨n.key⟩ : SecurityId))

namespace Graph

/-- The origin of an entity; a kind that remembers none counts as made in memory. -/
def origin (g : Graph) (n : Node) : Origin := ((g.entity n).origin?).getD .inMemory

/-- The row number of an entity. -/
def rid (g : Graph) (n : Node) : Nat := (g.entity n).rid

/-- The token of an entity. -/
def token (g : Graph) (n : Node) : Token :=
  let e := g.entity n
  e.fixedToken?.getD (Token.ofParts n.kind.table e.rid)

/-- The graph with another row number for an entity. -/
def setRid (g : Graph) (n : Node) (rid : Nat) : Graph :=
  { g with entities := g.entities.set n ((g.entity n).withRid rid) }

end Graph
end CliMetadata
