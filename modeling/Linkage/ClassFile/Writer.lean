import Linkage.ClassFile.Reader

/-!
# Writing class files

A `Draft` lists what a class file is to say. Writing it numbers the constants first: a constant is
written when it is first needed and found again under its label afterwards. The labels of constants
with several parts join the parts with a colon.

Counts and lengths are written in two bytes, so only their low sixteen bits survive.
-/

namespace Linkage.ClassFile

/-- What a class file is to say. -/
structure Draft where
  name : String
  access : UInt16
  super : Option String := none
  interfaces : List String := []
  fields : List Member := []
  methods : List Member := []
  memberRefs : List MemberRef := []
  classRefs : List String := []
  longs : List Int64 := []
  deprecated : Bool := false
  deriving DecidableEq, Repr

namespace Draft

/-- A draft that says what a definition says. -/
def ofDefinition (c : ClassDefinition) : Draft where
  name := c.name
  access := c.access.bits
  super := c.super
  interfaces := c.interfaces
  fields := c.fields
  methods := c.methods
  memberRefs := c.memberRefs
  classRefs := c.classRefs
  deprecated := c.deprecated

end Draft

/-! ## Numbers -/

/-- Two bytes, the high one first. -/
def bytes16 (w : UInt16) : List UInt8 :=
  [(w >>> 8).toUInt8, w.toUInt8]

/-- Four bytes, the highest one first. -/
def bytes32 (w : UInt32) : List UInt8 :=
  [(w >>> 24).toUInt8, (w >>> 16).toUInt8, (w >>> 8).toUInt8, w.toUInt8]

/-- Eight bytes, the highest one first. -/
def bytes64 (w : UInt64) : List UInt8 :=
  bytes32 (w >>> 32).toUInt32 ++ bytes32 w.toUInt32

/-! ## The constant pool -/

/-- What a constant is found again by. -/
inductive Label where
  | text (value : String)
  | classNamed (name : String)
  | signature (joined : String)
  | member (tag : UInt8) (joined : String)
  | long (value : Int64)
  deriving DecidableEq, Repr

/-- The constants written so far, the slot of each by its label, and the next free slot. -/
structure Slots where
  bytes : List UInt8
  next : UInt16
  known : Table Label UInt16

/-- A step of writing constants. -/
abbrev Writing := StateM Slots

namespace Writing

/-- The slot of the labelled constant; writes it if it is new. -/
def intern (label : Label) (width : UInt16) (encoded : List UInt8) : Writing UInt16 := do
  let slots ← get
  match slots.known.get? label with
  | some index => return index
  | none => do
    set { slots with
      bytes := slots.bytes ++ encoded
      next := slots.next + width
      known := slots.known.put label slots.next }
    return slots.next

/-- A text. -/
def text (value : String) : Writing UInt16 :=
  let encoded := Text.utf8 value
  intern (.text value) 1 (1 :: bytes16 (UInt16.ofNat encoded.length) ++ encoded)

/-- A class. -/
def classNamed (name : String) : Writing UInt16 := do
  let nameIndex ← text name
  intern (.classNamed name) 1 (7 :: bytes16 nameIndex)

/-- A member's name and descriptor. -/
def signature (name descriptor : String) : Writing UInt16 := do
  let nameIndex ← text name
  let descriptorIndex ← text descriptor
  intern (.signature (name ++ ":" ++ descriptor)) 1
    (12 :: bytes16 nameIndex ++ bytes16 descriptorIndex)

/-- The tag of a reference to a member. -/
def memberTag : MemberKind → UInt8
  | .field => 9
  | .method => 10
  | .interfaceMethod => 11

/-- A reference to a member. -/
def member (r : MemberRef) : Writing UInt16 := do
  let owner ← classNamed r.owner
  let sig ← signature r.name r.descriptor
  let tag := memberTag r.kind
  intern (.member tag (r.owner ++ ":" ++ r.name ++ ":" ++ r.descriptor)) 1
    (tag :: bytes16 owner ++ bytes16 sig)

/-- A number of eight bytes. -/
def long (value : Int64) : Writing UInt16 :=
  intern (.long value) 2 (5 :: bytes64 value.toUInt64)

end Writing

/-! ## The class -/

/-- The list of attributes: one mark if deprecated, else nothing. -/
def attributeBytes (deprecated : Bool) (markIndex : UInt16) : List UInt8 :=
  if deprecated then bytes16 1 ++ bytes16 markIndex ++ bytes32 0 else bytes16 0

/-- A member with the slots of its name and descriptor. -/
structure PlacedMember where
  access : UInt16
  name : UInt16
  descriptor : UInt16
  deprecated : Bool
  deriving DecidableEq, Repr

/-- Finds slots for a member's texts. -/
def Writing.place (m : Member) : Writing PlacedMember := do
  let name ← text m.name
  let descriptor ← text m.descriptor
  return ⟨m.access.bits, name, descriptor, m.deprecated⟩

/-- A member as it is written. -/
def PlacedMember.bytes (markIndex : UInt16) (m : PlacedMember) : List UInt8 :=
  bytes16 m.access ++ bytes16 m.name ++ bytes16 m.descriptor
    ++ attributeBytes m.deprecated markIndex

/-- A count of two bytes and the items after it. -/
def countedBytes {α : Type} (item : α → List UInt8) (xs : List α) : List UInt8 :=
  bytes16 (UInt16.ofNat xs.length) ++ xs.flatMap item

/-- The slots that the class itself refers to. -/
structure Layout where
  self : UInt16
  super : UInt16
  interfaces : List UInt16
  mark : UInt16
  fields : List PlacedMember
  methods : List PlacedMember

/-- Writes the constants of a draft: numbers, the class and its parents, the references, and the
texts of the members. -/
def Draft.layout (d : Draft) : Writing Layout := do
  d.longs.forM fun value => discard (Writing.long value)
  let self ← Writing.classNamed d.name
  let super ← match d.super with
    | some name => Writing.classNamed name
    | none => pure 0
  let interfaces ← d.interfaces.mapM Writing.classNamed
  d.classRefs.forM fun name => discard (Writing.classNamed name)
  d.memberRefs.forM fun r => discard (Writing.member r)
  let mark ← Writing.text deprecatedAttribute
  let fields ← d.fields.mapM Writing.place
  let methods ← d.methods.mapM Writing.place
  return ⟨self, super, interfaces, mark, fields, methods⟩

/-- The major version that is written. -/
def writtenMajor : UInt16 := 52

/-- The class file that a draft describes. -/
def Draft.build (d : Draft) : List UInt8 :=
  let (l, slots) := d.layout.run ⟨[], 1, Table.empty⟩
  bytes32 magic ++ bytes16 0 ++ bytes16 writtenMajor ++ bytes16 slots.next ++ slots.bytes
    ++ bytes16 d.access ++ bytes16 l.self ++ bytes16 l.super
    ++ countedBytes bytes16 l.interfaces
    ++ countedBytes (PlacedMember.bytes l.mark) l.fields
    ++ countedBytes (PlacedMember.bytes l.mark) l.methods
    ++ attributeBytes d.deprecated l.mark

end Linkage.ClassFile
