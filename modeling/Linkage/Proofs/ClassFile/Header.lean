import Linkage.Proofs.ClassFile.Layout

/-!
# Reading a class back

Each part of a class file reads as the part of the draft that it was written for, once the pool has
been read. Only the references among the constants are left open here: they enter as a hypothesis.
-/

namespace Linkage.ClassFile

variable {pool : Pool} {mark : UInt16}

theorem Written.reads {slots : Slots} {kept : List Entry} {spelled : List (List Constant)}
    (h : Written slots kept spelled) :
    Reads readPool (bytes16 slots.next ++ slots.bytes) (poolOf spelled) := by
  have hcount : slots.next.toNat - 1 = spelled.flatten.length := by
    rw [h.next]
    omega
  have hslots : Reads (readSlots (slots.next.toNat - 1) #[.other]) slots.bytes (poolOf spelled) := by
    intro rest
    have hfills := h.fills 0 #[.other] rest
    have hpool : #[.other] ++ spelled.flatten.toArray = poolOf spelled := by simp [poolOf]
    rw [hcount, ← Nat.add_zero spelled.flatten.length, hfills, hpool]
    rfl
  exact (reads_word16 _).bind hslots

theorem reads_attributes (hmark : pool.text mark = .ok deprecatedAttribute) (deprecated : Bool) :
    Reads (readAttributes pool) (attributeBytes deprecated mark) deprecated := by
  cases deprecated with
  | false => exact (reads_word16 0).map (.pure false)
  | true =>
      have hattribute : Reads (readAttribute pool) (bytes16 mark ++ bytes32 0) true := by
        apply (reads_word16 mark).bind
        apply Reads.look hmark
        apply (reads_word32 0).map
        exact (reads_skip []).map (.pure true)
      have htimes : Reads (Reader.times (readAttribute pool) 1)
          ([()].flatMap fun _ => bytes16 mark ++ bytes32 0) [true] :=
        Reads.times (.cons hattribute .nil)
      unfold attributeBytes readAttributes
      rw [if_pos rfl, List.append_assoc]
      apply (reads_word16 1).bind
      apply Reads.map
      · simpa using htimes
      · exact .pure true

theorem Placed.reads {m : Member} {p : PlacedMember} (h : Placed pool m p)
    (hmark : pool.text mark = .ok deprecatedAttribute) :
    Reads (readMember pool) (p.bytes mark) m := by
  have hmember : (⟨m.name, m.descriptor, ⟨p.access⟩, p.deprecated⟩ : Member) = m := by
    rw [h.access, h.deprecated]
  suffices hread : Reads (readMember pool) (p.bytes mark)
      ⟨m.name, m.descriptor, ⟨p.access⟩, p.deprecated⟩ by rwa [hmember] at hread
  unfold readMember PlacedMember.bytes
  simp only [List.append_assoc]
  apply (reads_word16 p.access).bind
  apply (reads_word16 p.name).bind
  apply Reads.look h.name
  apply (reads_word16 p.descriptor).bind
  apply Reads.look h.descriptor
  exact (reads_attributes hmark p.deprecated).map (.pure _)

theorem reads_members {ms : List Member} {ps : List PlacedMember}
    (h : List.Forall₂ (Placed pool) ms ps) (hmark : pool.text mark = .ok deprecatedAttribute)
    (hcount : ms.length ≤ 65535) :
    Reads (readMembers pool) (countedBytes (PlacedMember.bytes mark) ps) ms := by
  apply Reads.counted
  · exact (h.imp fun _ _ hplaced => hplaced.reads hmark).flip
  · rwa [← h.length_eq]

/-- Slot 0 names no class, so an index of 0 stands for no superclass and no other index does. -/
theorem reads_super {spelled : List (List Constant)} {name? : Option String} {index : UInt16}
    (h : PlacedSuper (poolOf spelled) name? index) :
    Reads (readSuper (poolOf spelled)) (bytes16 index) name? := by
  cases name? with
  | none =>
      rw [show index = 0 from h]
      exact (reads_word16 0).map (.pure none)
  | some name =>
      have hname : (poolOf spelled).className index = .ok name := h
      have hindex : index ≠ 0 := by
        rintro rfl
        obtain ⟨i, hslot, _⟩ := Pool.className_eq_ok.mp hname
        simp [poolOf] at hslot
      apply (reads_word16 index).map
      rw [if_neg hindex]
      exact Reads.look hname (.pure (some name))

/-- The class file with a layout and constants that were written beforehand. -/
def Draft.assemble (d : Draft) (l : Layout) (slots : Slots) : List UInt8 :=
  bytes32 magic ++ bytes16 0 ++ bytes16 writtenMajor ++ bytes16 slots.next ++ slots.bytes
    ++ bytes16 d.access ++ bytes16 l.self ++ bytes16 l.super
    ++ countedBytes bytes16 l.interfaces
    ++ countedBytes (PlacedMember.bytes l.mark) l.fields
    ++ countedBytes (PlacedMember.bytes l.mark) l.methods
    ++ attributeBytes d.deprecated l.mark

theorem Draft.build_eq (d : Draft) :
    d.build = d.assemble (d.layout.run ⟨[], 1, Table.empty⟩).1
      (d.layout.run ⟨[], 1, Table.empty⟩).2 := rfl

/-- The class that a draft is read back as, with these references. -/
def Draft.readBack (d : Draft) (refs : References) : ClassDefinition where
  name := d.name
  access := ⟨d.access⟩
  super := d.super
  interfaces := d.interfaces
  methods := d.methods
  fields := d.fields
  classRefs := refs.classes
  memberRefs := refs.members
  deprecated := d.deprecated
  major := writtenMajor

/-! ## One part after the other -/

/-- Reads the attributes of a class and follows its references. -/
def readMarks (pool : Pool) (c : ClassDefinition) : Reader ClassDefinition := do
  let deprecated ← readAttributes pool
  let refs ← pool.references c.name
  return { c with deprecated, classRefs := refs.classes, memberRefs := refs.members }

/-- Reads the methods of a class and what comes after them. -/
def readMethods (pool : Pool) (c : ClassDefinition) : Reader ClassDefinition := do
  let methods ← readMembers pool
  readMarks pool { c with methods }

/-- Reads the fields of a class and what comes after them. -/
def readFields (pool : Pool) (c : ClassDefinition) : Reader ClassDefinition := do
  let fields ← readMembers pool
  readMethods pool { c with fields }

/-- Reads the interfaces of a class and what comes after them. -/
def readInterfaces (pool : Pool) (c : ClassDefinition) : Reader ClassDefinition := do
  let count ← Reader.word16
  let interfaces ← Reader.times (do pool.className (← Reader.word16)) count.toNat
  readFields pool { c with interfaces }

/-- The class file up to the superclass. -/
def Draft.front (d : Draft) (l : Layout) (slots : Slots) : List UInt8 :=
  bytes32 magic ++ bytes16 0 ++ bytes16 writtenMajor ++ bytes16 slots.next ++ slots.bytes
    ++ bytes16 d.access ++ bytes16 l.self ++ bytes16 l.super

/-- Of a draft whose constants were written the reader comes to the interfaces. -/
theorem Laid.leads {d : Draft} {slots : Slots} {l : Layout} {spelled : List (List Constant)}
    (hwritten : Written slots d.kept spelled) (hlaid : Laid (poolOf spelled) d l) :
    Leads readDefinition (d.front l slots) (readInterfaces (poolOf spelled) (d.readBack ⟨[], []⟩)) := by
  unfold readDefinition Draft.front
  simp only [List.append_assoc]
  apply (reads_word32 magic).leads
  rw [if_neg (not_not_intro rfl)]
  apply (reads_word16 0).leads
  apply (reads_word16 writtenMajor).leads
  -- the pool takes its count and its constants together
  rw [← List.append_assoc (bytes16 slots.next)]
  apply hwritten.reads.leads
  apply (reads_word16 d.access).leads
  apply (reads_word16 l.self).leads
  apply Reads.leadsLook hlaid.self
  exact (reads_super hlaid.super).leadsTo

theorem reads_interfaces {d : Draft} {l : Layout} (h : Laid pool d l) :
    List.Forall₂ (fun index name => Reads (do pool.className (← Reader.word16) : Reader String)
      (bytes16 index) name) l.interfaces d.interfaces := by
  apply (h.interfaces.imp _).flip
  intro name index hname
  exact (reads_word16 index).map (.lift hname)

/-- Where the interfaces can be counted, the reader goes on to the fields. -/
theorem Laid.leads_fields {d : Draft} {l : Layout} (h : Laid pool d l)
    (hcount : d.interfaces.length ≤ 65535) :
    Leads (readInterfaces pool (d.readBack ⟨[], []⟩)) (countedBytes bytes16 l.interfaces)
      (readFields pool (d.readBack ⟨[], []⟩)) := by
  have hinterfaces := Reads.counted (reads_interfaces h) (by rwa [← h.interfaces.length_eq])
  unfold readInterfaces
  rw [← bind_assoc]
  exact hinterfaces.leadsTo

/-- Where the fields can be counted, it goes on to the methods. -/
theorem Laid.leads_methods {d : Draft} {l : Layout} (h : Laid pool d l)
    (hcount : d.fields.length ≤ 65535) :
    Leads (readFields pool (d.readBack ⟨[], []⟩)) (countedBytes (PlacedMember.bytes l.mark) l.fields)
      (readMethods pool (d.readBack ⟨[], []⟩)) :=
  (reads_members h.fields h.mark hcount).leadsTo

/-- A draft within the limits is read back, if the references among its constants can be followed. -/
theorem Laid.reads {d : Draft} {slots : Slots} {l : Layout} {spelled : List (List Constant)}
    {refs : References} (hlimits : d.WithinLimits) (hwritten : Written slots d.kept spelled)
    (hlaid : Laid (poolOf spelled) d l)
    (hrefs : (poolOf spelled).references d.name = .ok refs) :
    Reads readDefinition (d.assemble l slots) (d.readBack refs) := by
  have hmarks : Reads (readMarks (poolOf spelled) (d.readBack ⟨[], []⟩))
      (attributeBytes d.deprecated l.mark) (d.readBack refs) :=
    (reads_attributes hlaid.mark d.deprecated).map (Reads.look hrefs (.pure (d.readBack refs)))
  have hmethods : Reads (readMethods (poolOf spelled) (d.readBack ⟨[], []⟩))
      (countedBytes (PlacedMember.bytes l.mark) l.methods ++ attributeBytes d.deprecated l.mark)
      (d.readBack refs) :=
    (reads_members hlaid.methods hlaid.mark hlimits.methods).bind hmarks
  have hfields := (hlaid.leads_methods hlimits.fields).reads hmethods
  have hinterfaces := (hlaid.leads_fields hlimits.interfaces).reads hfields
  have hwhole := (Laid.leads hwritten hlaid).reads hinterfaces
  unfold Draft.assemble
  simpa only [Draft.front, List.append_assoc] using hwhole

end Linkage.ClassFile
