/-!
# Flag words

The bits of the flag columns, by the table they belong to, and the parts that a
method's flag word is read as.
-/

namespace CliMetadata

/-- A word of flags. -/
abbrev Flags := UInt32

/-- Whether any bit of a mask is set. -/
def Flags.has (flags mask : Flags) : Bool := flags &&& mask != 0

namespace TypeFlags

/-- The bit that tells an interface from a class. -/
def classSemantics : Flags := 0x20

/-- Whether the flags are those of an interface. -/
def isInterface (flags : Flags) : Bool := flags &&& classSemantics == classSemantics

end TypeFlags

namespace FieldFlags

/-- Whether the flags are those of a static field. -/
def isStatic (flags : Flags) : Bool := Flags.has flags 0x10

end FieldFlags

namespace MethodFlags

/-- The bits that hold the access level. -/
def accessMask : Flags := 0x7

/-- The bits of all modifiers. -/
def modifierMask : Flags := 0xFFF0

/-- The access level of a method. -/
def access (flags : Flags) : Flags := flags &&& accessMask

/-- The modifiers of a method. -/
def modifiers (flags : Flags) : Flags := flags &&& modifierMask

/-- The sort of code a method has, out of its implementation flags. -/
def codeType (implFlags : Flags) : Flags := implFlags &&& 0x3

/-- The modifier of static methods. -/
def isStatic (flags : Flags) : Bool := Flags.has flags 0x10

/-- The modifier of final methods. -/
def isFinal (flags : Flags) : Bool := Flags.has flags 0x20

/-- The modifier of virtual methods. -/
def isVirtual (flags : Flags) : Bool := Flags.has flags 0x40

/-- The modifier of abstract methods. -/
def isAbstract (flags : Flags) : Bool := Flags.has flags 0x400

/-- The modifier of methods whose name the runtime gives a meaning. -/
def isRuntimeSpecial (flags : Flags) : Bool := Flags.has flags 0x1000

end MethodFlags

/-! What a method does for a property or an event. -/

namespace Semantics

/-- The role of a setter. -/
def setter : Flags := 0x01

/-- The role of a getter. -/
def getter : Flags := 0x02

/-- Any other role. -/
def other : Flags := 0x04

/-- The role of adding a handler to an event. -/
def addOn : Flags := 0x08

/-- The role of removing a handler. -/
def removeOn : Flags := 0x10

/-- The role of raising an event. -/
def fire : Flags := 0x20

end Semantics

namespace GenericParamFlags

/-- Whether a parameter is covariant. -/
def isCovariant (flags : Flags) : Bool := flags &&& 0x3 == 1

/-- Whether a parameter is contravariant. -/
def isContravariant (flags : Flags) : Bool := flags &&& 0x3 == 2

end GenericParamFlags

namespace AssemblyFlags

/-- The bit that says that a key is stored in full. -/
def publicKey : Flags := 0x1

/-- The bits that say what an assembly contains. -/
def contentMask : Flags := 0xE00

/-- The content of a Windows Runtime assembly. -/
def windowsRuntime : Flags := 0x200

/-- The flags with the bit that says whether a key is stored in full. -/
def withKey (isFull : Bool) (flags : Flags) : Flags :=
  if isFull then flags ||| publicKey else flags &&& ~~~publicKey

end AssemblyFlags

namespace FileFlags

/-- Whether a file holds metadata. -/
def containsMetadata (flags : Flags) : Bool := !Flags.has flags 0x1

end FileFlags

namespace ExportedTypeFlags

/-- Whether the type is defined in another assembly. -/
def isForwarder (flags : Flags) : Bool := Flags.has flags 0x200000

end ExportedTypeFlags

namespace ResourceFlags

/-- Whether a resource is visible outside its assembly. -/
def isPublic (flags : Flags) : Bool := flags &&& 0x7 == 1

/-- Whether a resource is visible inside its assembly only. -/
def isPrivate (flags : Flags) : Bool := flags &&& 0x7 == 2

end ResourceFlags

/-- The actions that declarative security can ask for. -/
inductive SecurityAction where
  | deny | demand | assert | nonCasDemand | linkDemand | inheritanceDemand | requestMinimum
  | requestOptional | requestRefuse | prejitGrant | prejitDeny | nonCasLinkDemand
  | nonCasInheritance | permitOnly
deriving Repr, DecidableEq

namespace SecurityAction

/-- The actions in the order of their numbers, from one on, with their names. -/
def all : List (SecurityAction × String) :=
  [(deny, "Deny"), (demand, "Demand"), (assert, "Assert"), (nonCasDemand, "NonCasDemand"),
    (linkDemand, "LinkDemand"), (inheritanceDemand, "InheritanceDemand"),
    (requestMinimum, "RequestMinimum"), (requestOptional, "RequestOptional"),
    (requestRefuse, "RequestRefuse"), (prejitGrant, "PrejitGrant"), (prejitDeny, "PrejitDeny"),
    (nonCasLinkDemand, "NonCasLinkDemand"), (nonCasInheritance, "NonCasInheritance"),
    (permitOnly, "PermitOnly")]

/-- The action with a number. -/
def ofNumber? (n : Nat) : Option SecurityAction :=
  if n = 0 then none else all[n - 1]?.map (·.1)

/-- The number of an action. -/
def number (a : SecurityAction) : Nat := all.findIdx (fun entry => entry.1 == a) + 1

/-- The name of an action. -/
def name (a : SecurityAction) : String :=
  ((all.find? fun entry => entry.1 == a).map (·.2)).getD ""

end SecurityAction

end CliMetadata
