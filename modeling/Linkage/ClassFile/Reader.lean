import Linkage.ClassFile.Pool
import Linkage.Table
import Linkage.Text.Lossy

/-!
# Reading class files

A reader takes what it needs from the front of the bytes and leaves the rest. Numbers are written
with the high byte first. Bytes after the end of the class are not looked at.

Indexes of the header and of the members are followed where they are read; the references among the
constants are followed once the whole class has been read.
-/

namespace Linkage.ClassFile

/-- A step of reading: it consumes bytes from the front or finds a defect. -/
abbrev Reader (α : Type) := StateT (List UInt8) (Except Defect) α

/-- The number that every class file begins with. -/
def magic : UInt32 := 0xCAFEBABE

/-- The attribute that marks something deprecated. -/
def deprecatedAttribute : String := "Deprecated"

namespace Reader

/-- One byte. -/
def byte : Reader UInt8 := fun
  | b :: rest => .ok (b, rest)
  | [] => .error .truncated

/-- A number of two bytes. -/
def word16 : Reader UInt16 := fun
  | a :: b :: rest => .ok (UInt16.ofNat (a.toNat * 256 + b.toNat), rest)
  | _ => .error .truncated

/-- A number of four bytes. -/
def word32 : Reader UInt32 := fun
  | a :: b :: c :: d :: rest =>
    .ok (UInt32.ofNat (((a.toNat * 256 + b.toNat) * 256 + c.toNat) * 256 + d.toNat), rest)
  | _ => .error .truncated

/-- The next `n` bytes. -/
def take (n : Nat) : Reader (List UInt8) := fun bytes =>
  let taken := bytes.take n
  if taken.length = n then .ok (taken, bytes.drop n) else .error .truncated

/-- Passes over `n` bytes. -/
def skip (n : Nat) : Reader Unit := do
  let _ ← take n

/-- Reads `n` more items after those read so far, of which the last one comes first. -/
def timesAfter {α : Type} (item : Reader α) : Nat → List α → Reader (List α)
  | 0, done => pure done.reverse
  | n + 1, done => do
    let x ← item
    timesAfter item n (x :: done)

/-- Reads `n` items. -/
def times {α : Type} (item : Reader α) (n : Nat) : Reader (List α) :=
  timesAfter item n []

end Reader

open Reader

/-! ## The constant pool -/

/-- A constant as it is read: most take one slot, a wide one takes two. -/
inductive Reading where
  | narrow (c : Constant)
  | wide
  deriving DecidableEq, Repr

/-- The constant at `index`; `last` says that no slot follows it. A wide constant in the last slot
is refused before its bytes are read. -/
def readConstant (index : UInt16) (last : Bool) : Reader Reading := do
  let tag ← byte
  match tag with
  | 1 => do
    let size ← word16
    let bytes ← take size.toNat
    return .narrow (.text (Text.decodeLossy bytes))
  | 3 | 4 | 17 | 18 => do skip 4; return .narrow .other
  | 5 | 6 => if last then throw (.badIndex index) else do skip 8; return .wide
  | 7 => do
    let name ← word16
    return .narrow (.classAt name)
  | 8 | 16 | 19 | 20 => do skip 2; return .narrow .other
  | 9 => member .field
  | 10 => member .method
  | 11 => member .interfaceMethod
  | 12 => do
    let name ← word16
    let descriptor ← word16
    return .narrow (.signature name descriptor)
  | 15 => do skip 3; return .narrow .other
  | tag => throw (.unknownTag tag index)
where
  /-- The two indexes of a member constant. -/
  member (kind : MemberKind) : Reader Reading := do
    let owner ← word16
    let signature ← word16
    return .narrow (.member kind owner signature)

/-- Fills `n` more slots of a pool. -/
def readSlots : Nat → Pool → Reader Pool
  | 0, pool => pure pool
  | 1, pool => do
    match ← readConstant (UInt16.ofNat pool.size) true with
    | .narrow c => return pool.push c
    | .wide => return pool
  | n + 2, pool => do
    match ← readConstant (UInt16.ofNat pool.size) false with
    | .narrow c => readSlots (n + 1) (pool.push c)
    | .wide => readSlots n ((pool.push .other).push .other)

/-- A constant pool: the number of slots, counting slot 0, and then the constants. -/
def readPool : Reader Pool := do
  let count ← word16
  readSlots (count.toNat - 1) #[.other]

/-! ## The class -/

/-- Passes over an attribute; tells whether it marks a deprecation. -/
def readAttribute (pool : Pool) : Reader Bool := do
  let name ← pool.text (← word16)
  let size ← word32
  skip size.toNat
  return name == deprecatedAttribute

/-- Passes over a list of attributes; tells whether one of them marks a deprecation. -/
def readAttributes (pool : Pool) : Reader Bool := do
  let count ← word16
  let marks ← times (readAttribute pool) count.toNat
  return marks.any id

/-- A declared member. -/
def readMember (pool : Pool) : Reader Member := do
  let access ← word16
  let name ← pool.text (← word16)
  let descriptor ← pool.text (← word16)
  let deprecated ← readAttributes pool
  return ⟨name, descriptor, ⟨access⟩, deprecated⟩

/-- A list of declared members. -/
def readMembers (pool : Pool) : Reader (List Member) := do
  let count ← word16
  times (readMember pool) count.toNat

/-- The superclass: index 0 says that there is none. -/
def readSuper (pool : Pool) : Reader (Option String) := do
  let index ← word16
  if index = 0 then return none
  else return some (← pool.className index)

/-- The classes and members that the constants refer to, each once, in the order of the slots. -/
structure References where
  classes : List String
  members : List MemberRef
  deriving DecidableEq, Repr

/-- Notes what one constant of the class `self` refers to. -/
def References.note (pool : Pool) (self : String) (refs : References) :
    Constant → Except Defect References
  | .classAt index => do
    let name ← pool.text index
    match ClassName.element? name with
    | some plain =>
      if plain = self then return refs
      else return { refs with classes := insertNew refs.classes plain }
    | none => return refs
  | .member kind ownerIndex signatureIndex => do
    let owner ← pool.className ownerIndex
    let (name, descriptor) ← pool.signature signatureIndex
    return { refs with members := insertNew refs.members ⟨kind, owner, name, descriptor⟩ }
  | _ => return refs

/-- What the constants of the class `self` refer to. -/
def Pool.references (pool : Pool) (self : String) : Except Defect References :=
  pool.toList.foldlM (References.note pool self) ⟨[], []⟩

/-- A whole class file. -/
def readDefinition : Reader ClassDefinition := do
  let found ← word32
  if found ≠ magic then throw (.invalidMagic found)
  let _ ← word16
  let major ← word16
  let pool ← readPool
  let access ← word16
  let name ← pool.className (← word16)
  let super ← readSuper pool
  let interfaceCount ← word16
  let interfaces ← times (do pool.className (← word16)) interfaceCount.toNat
  let fields ← readMembers pool
  let methods ← readMembers pool
  let deprecated ← readAttributes pool
  let refs ← pool.references name
  return {
    name, access := ⟨access⟩, super, interfaces, methods, fields
    classRefs := refs.classes, memberRefs := refs.members, deprecated, major }

/-- The class that the bytes begin with. -/
def read (bytes : List UInt8) : Except Defect ClassDefinition :=
  (readDefinition bytes).map (·.1)

end Linkage.ClassFile
