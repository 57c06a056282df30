import Linkage.Proofs.ClassFile.Interning

/-!
# The layout of a draft

Writing a draft asks for the constants that it lists and leaves, for each part of the class, the slot
in which the reader will find it. The limits of the format carry the whole layout: no slot number
wraps, and no length does.
-/

namespace Linkage.ClassFile

/-- The slot of the superclass as it is written. -/
def Writing.parent : Option String → Writing UInt16
  | some name => classNamed name
  | none => pure 0

/-- The layout as one step after another: what follows the superclass does not depend on whether
there is one. -/
theorem Draft.layout_eq (d : Draft) : d.layout = (do
    d.longs.forM fun value => discard (Writing.long value)
    let self ← Writing.classNamed d.name
    let super ← Writing.parent d.super
    let interfaces ← d.interfaces.mapM Writing.classNamed
    d.classRefs.forM fun name => discard (Writing.classNamed name)
    d.memberRefs.forM fun r => discard (Writing.member r)
    let mark ← Writing.text deprecatedAttribute
    let fields ← d.fields.mapM Writing.place
    let methods ← d.methods.mapM Writing.place
    return ⟨self, super, interfaces, mark, fields, methods⟩) := by
  unfold Draft.layout
  cases d.super <;> rfl

/-! ## What the slots have -/

/-- The slots of a declared member. -/
structure Placed (pool : Pool) (m : Member) (p : PlacedMember) : Prop where
  access : p.access = m.access.bits
  name : pool.text p.name = .ok m.name
  descriptor : pool.text p.descriptor = .ok m.descriptor
  deprecated : p.deprecated = m.deprecated

/-- The slot of the superclass, 0 if there is none. -/
def PlacedSuper (pool : Pool) : Option String → UInt16 → Prop
  | some name, index => pool.className index = .ok name
  | none, index => index = 0

/-- The slots of everything that the class itself refers to. -/
structure Laid (pool : Pool) (d : Draft) (l : Layout) : Prop where
  self : pool.className l.self = .ok d.name
  super : PlacedSuper pool d.super l.super
  interfaces : List.Forall₂ (fun name index => pool.className index = .ok name) d.interfaces
    l.interfaces
  mark : pool.text l.mark = .ok deprecatedAttribute
  fields : List.Forall₂ (Placed pool) d.fields l.fields
  methods : List.Forall₂ (Placed pool) d.methods l.methods

namespace Serves

variable {given : Pool → Prop}

theorem place (m : Member) :
    Serves given (Writing.place m) (Entry.ofMember m) (fun pool p => Placed pool m p) := by
  apply (text m.name).bind
  intro i
  apply (text m.descriptor).map
  intro pool j h hj
  exact ⟨rfl, h.2, hj, rfl⟩

theorem parent (name? : Option String) :
    Serves given (Writing.parent name?) (name?.toList.flatMap Entry.ofClass)
      (fun pool index => PlacedSuper pool name? index) := by
  cases name? with
  | none => exact .pure 0 fun _ _ => rfl
  | some name =>
      show Serves given _ (Entry.ofClass name ++ []) _
      rw [List.append_nil]
      exact classNamed name

/-- Writing a draft asks for what the draft lists. -/
theorem layout (d : Draft) :
    Serves (fun _ => True) d.layout d.entries (fun pool l => Laid pool d l) := by
  rw [Draft.layout_eq, Draft.entries]
  simp only [List.append_assoc, List.map_eq_flatMap]
  apply (forM d.longs fun _ value => (long value).discard).bind
  intro _
  apply (classNamed d.name).bind
  intro self
  apply (parent d.super).bind
  intro super
  apply (mapM d.interfaces fun _ name => classNamed name).bind
  intro interfaces
  apply (forM d.classRefs fun _ name => (classNamed name).discard).bind
  intro _
  apply (forM d.memberRefs fun _ r => (member r).discard).bind
  intro _
  apply (text deprecatedAttribute).bind
  intro mark
  apply (mapM d.fields fun _ m => place m).bind
  intro fields
  apply (mapM d.methods fun _ m => place m).map
  intro pool methods h hmethods
  -- what each step found holds of the pool at the end
  obtain ⟨⟨⟨⟨⟨⟨⟨_, hself⟩, hsuper⟩, hinterfaces⟩, _⟩, _⟩, hmark⟩, hfields⟩ := h
  exact ⟨hself, hsuper, hinterfaces, hmark, hfields, hmethods⟩

end Serves

/-- The layout of a draft whose constants fit: the constants that are kept, written, and the slots that the
class refers to. -/
theorem Draft.exists_laid {d : Draft} (h : Fits d.kept) :
    ∃ spelled, Written (d.layout.run ⟨[], 1, Table.empty⟩).2 d.kept spelled ∧
      Laid (poolOf spelled) d (d.layout.run ⟨[], 1, Table.empty⟩).1 := by
  obtain ⟨spelled, hwritten, _, hlaid⟩ := Serves.layout d Written.empty (fun _ _ => trivial) h
  exact ⟨spelled, hwritten, hlaid.now⟩

theorem Draft.WithinLimits.layout {d : Draft} (h : d.WithinLimits) :
    ∃ spelled, Written (d.layout.run ⟨[], 1, Table.empty⟩).2 d.kept spelled ∧
      Laid (poolOf spelled) d (d.layout.run ⟨[], 1, Table.empty⟩).1 := Draft.exists_laid h.fits

end Linkage.ClassFile
