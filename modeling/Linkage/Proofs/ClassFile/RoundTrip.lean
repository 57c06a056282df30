import Linkage.Proofs.ClassFile.References

/-!
# A written class is read back

Every draft within the limits of the format is read back as the class that it describes. The classes
that it refers to come back once each: its parents, the classes it names and the owners of the members
it uses, as elements of arrays where they are arrays, and without the class itself.
-/

namespace Linkage.ClassFile

instance (d : Draft) : Decidable d.WithinLimits :=
  decidable_of_iff ((∀ s ∈ d.texts, (Text.utf8 s).length ≤ 65535) ∧ d.interfaces.length ≤ 65535 ∧
      d.fields.length ≤ 65535 ∧ d.methods.length ≤ 65535 ∧ d.slotCount ≤ 65534)
    ⟨fun h => ⟨h.1, h.2.1, h.2.2.1, h.2.2.2.1, h.2.2.2.2⟩,
      fun h => ⟨h.texts, h.interfaces, h.fields, h.methods, h.slots⟩⟩

/-- The class says what the draft says, up to the members that it uses. -/
structure Draft.Restores (d : Draft) (c : ClassDefinition) : Prop where
  name : c.name = d.name
  super : c.super = d.super
  interfaces : c.interfaces = d.interfaces
  access : c.access.bits = d.access
  fields : c.fields = d.fields
  methods : c.methods = d.methods
  deprecated : c.deprecated = d.deprecated
  classRefs : c.classRefs = distinct (((d.name :: (d.super.toList ++ d.interfaces ++ d.classRefs ++
    d.memberRefs.map (·.owner))).filterMap ClassName.element?).filter (· ≠ d.name))

theorem Draft.restores_readBack (d : Draft) :
    d.Restores (d.readBack ⟨d.classesRead, d.membersRead⟩) where
  name := rfl
  super := rfl
  interfaces := rfl
  access := rfl
  fields := rfl
  methods := rfl
  deprecated := rfl
  classRefs := rfl

/-- Reading what was written succeeds and finds what the draft says, whether the draft was put
together part by part or made from a class. -/
theorem read_build :
    (∀ d : Draft, d.WithinLimits → ∃ c, read d.build = .ok c ∧ d.Restores c) ∧
    (∀ c : ClassDefinition, (Draft.ofDefinition c).WithinLimits →
      ∃ c', read (Draft.ofDefinition c).build = .ok c' ∧ (Draft.ofDefinition c).Restores c' ∧
        c' = { c with
          classRefs := c'.classRefs, memberRefs := c'.memberRefs, major := writtenMajor }) := by
  constructor
  · intro d hlimits
    exact ⟨_, hlimits.reads_back, d.restores_readBack⟩
  · intro c hlimits
    exact ⟨_, hlimits.reads_back, Draft.restores_readBack _, rfl⟩

/-- A class with an array among its parents' names, a member called like the mark of deprecation, and
numbers of two slots before everything else. -/
def gallery : Draft where
  name := "p/Gallery"
  access := 0x21
  super := some "p/Base"
  interfaces := ["p/Shape", "p/Shape"]
  fields := [⟨"Deprecated", "[I", ⟨2⟩, true⟩]
  methods := [⟨"draw", "()V", ⟨1⟩, false⟩, ⟨"draw", "()V", ⟨1⟩, true⟩]
  memberRefs := [⟨.method, "[[Lp/Frame;", "clone", "()V"⟩, ⟨.field, "p/Gallery", "Deprecated", "[I"⟩]
  classRefs := ["[Lp/Frame;", "[[I", "p/Base"]
  longs := [7, -1, 7]
  deprecated := true

/-- A class that was made rather than read, with a superclass that it does not list. -/
def widget : ClassDefinition where
  name := "p/Widget"
  access := ⟨0x11⟩
  super := some "p/Base"
  interfaces := ["p/Shape"]
  methods := [⟨"draw", "()V", ⟨1⟩, false⟩]
  fields := []
  classRefs := []
  memberRefs := []
  deprecated := true
  major := 61

theorem read_build_gallery :
    (∃ c, read gallery.build = .ok c ∧ c.fields = [⟨"Deprecated", "[I", ⟨2⟩, true⟩] ∧
      c.classRefs = ["p/Base", "p/Shape", "p/Frame"]) ∧
    ∃ c, read (Draft.ofDefinition widget).build = .ok c ∧ c.methods = widget.methods ∧
      c.classRefs = ["p/Base", "p/Shape"] := by
  constructor
  · obtain ⟨c, hread, h⟩ := read_build.1 gallery (by decide +kernel)
    refine ⟨c, hread, h.fields, h.classRefs.trans ?_⟩
    decide +kernel
  · obtain ⟨c, hread, h, _⟩ := read_build.2 widget (by decide +kernel)
    refine ⟨c, hread, h.methods, h.classRefs.trans ?_⟩
    decide +kernel

end Linkage.ClassFile
