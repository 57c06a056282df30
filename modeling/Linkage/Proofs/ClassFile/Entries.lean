import Linkage.ClassFile.Writer
import Linkage.Proofs.Table
import Mathlib.Algebra.GroupWithZero.Nat

/-!
# The constants that a draft asks for

Writing asks for constants in a fixed order, many of them more than once, and writes the first one of
each label. So the constants of a draft are a list that can be named before anything is written:

* **`Entry`** — a constant as it is asked for, with all of its parts;
* **`Draft.entries`** — what writing asks for, in order, and **`Draft.kept`**, what it writes;
* **`Draft.WithinLimits`** — the limits of the format, stated of the draft;
* **`Fits`** — the same limits, stated of the constants.

The parts of an entry say more than its label: two signatures may join to one text.
-/

namespace Linkage.ClassFile

/-- A constant that writing asks for. -/
inductive Entry where
  | text (value : String)
  | classNamed (name : String)
  | signature (name descriptor : String)
  | member (r : MemberRef)
  | long (value : Int64)

namespace Entry

/-- What the constant is found again by. -/
def label : Entry → Label
  | .text value => .text value
  | .classNamed name => .classNamed name
  | .signature name descriptor => .signature (name ++ ":" ++ descriptor)
  | .member r =>
    .member (Writing.memberTag r.kind) (r.owner ++ ":" ++ r.name ++ ":" ++ r.descriptor)
  | .long value => .long value

/-- How many slots it takes. -/
def width : Entry → Nat
  | .long _ => 2
  | _ => 1

/-- Two bytes are enough for the length of its text. -/
def Writable : Entry → Prop
  | .text value => (Text.utf8 value).length ≤ 65535
  | _ => True

theorem eq_text_of_label {e : Entry} {value : String} (h : e.label = .text value) :
    e = .text value := by
  cases e <;> simp_all [label]

theorem eq_classNamed_of_label {e : Entry} {name : String} (h : e.label = .classNamed name) :
    e = .classNamed name := by
  cases e <;> simp_all [label]

theorem eq_signature_of_label {e : Entry} {joined : String} (h : e.label = .signature joined) :
    ∃ name descriptor, e = .signature name descriptor ∧ name ++ ":" ++ descriptor = joined := by
  cases e <;> simp_all [label]

theorem eq_member_of_label {e : Entry} {r : MemberRef} (h : e.label = (Entry.member r).label) :
    ∃ r', e = .member r' ∧ (Entry.member r').label = (Entry.member r).label := by
  cases e with
  | member r' => exact ⟨r', rfl, h⟩
  | _ => simp [label] at h

/-- Entries of one label are written alike, as far as lengths go. -/
theorem Writable.of_label {e e' : Entry} (h : e.Writable) (hlabel : e'.label = e.label) :
    e'.Writable := by
  cases e' with
  | text value =>
      rw [eq_text_of_label (hlabel.symm.trans rfl)] at h
      exact h
  | _ => trivial

/-! ## What each step asks for -/

def ofClass (name : String) : List Entry := [.text name, .classNamed name]

def ofSignature (name descriptor : String) : List Entry :=
  [.text name, .text descriptor, .signature name descriptor]

def ofReference (r : MemberRef) : List Entry :=
  ofClass r.owner ++ (ofSignature r.name r.descriptor ++ [.member r])

def ofMember (m : Member) : List Entry := [.text m.name, .text m.descriptor]

/-! Which texts they are. -/

theorem text_mem_ofClass {value name : String} : text value ∈ ofClass name ↔ value = name := by
  simp [ofClass]

theorem text_mem_ofReference {value : String} {r : MemberRef} :
    text value ∈ ofReference r ↔ value = r.owner ∨ value = r.name ∨ value = r.descriptor := by
  simp [ofReference, ofClass, ofSignature]

theorem text_mem_ofMember {value : String} {m : Member} :
    text value ∈ ofMember m ↔ value = m.name ∨ value = m.descriptor := by
  simp [ofMember]

end Entry

/-- Everything that writing a draft asks for, in order. -/
def Draft.entries (d : Draft) : List Entry :=
  d.longs.map .long ++ Entry.ofClass d.name ++ d.super.toList.flatMap Entry.ofClass ++
    d.interfaces.flatMap Entry.ofClass ++ d.classRefs.flatMap Entry.ofClass ++
    d.memberRefs.flatMap Entry.ofReference ++ [.text deprecatedAttribute] ++
    d.fields.flatMap Entry.ofMember ++ d.methods.flatMap Entry.ofMember

/-- The constants of a draft, each label once. -/
def Draft.kept (d : Draft) : List Entry := distinctBy Entry.label d.entries

/-! ## Limits -/

/-- Every text that a draft gives. -/
def Draft.texts (d : Draft) : List String :=
  d.name :: (d.super.toList ++ d.interfaces ++ d.classRefs ++
    d.memberRefs.flatMap (fun r => [r.owner, r.name, r.descriptor]) ++
    (d.fields ++ d.methods).flatMap (fun m => [m.name, m.descriptor]))

/-- How many slots of the pool a draft takes, slot 0 apart. -/
def Draft.slotCount (d : Draft) : Nat := (d.kept.map Entry.width).sum

/-- The draft is within the limits of class files: lengths and counts fit in two bytes, and so does
the number of slots with slot 0. -/
structure Draft.WithinLimits (d : Draft) : Prop where
  texts : ∀ s ∈ d.texts, (Text.utf8 s).length ≤ 65535
  interfaces : d.interfaces.length ≤ 65535
  fields : d.fields.length ≤ 65535
  methods : d.methods.length ≤ 65535
  slots : d.slotCount ≤ 65534

/-- The constants can be written: their slots can be numbered and their texts measured. -/
structure Fits (kept : List Entry) : Prop where
  slots : (kept.map Entry.width).sum ≤ 65534
  writable : ∀ e ∈ kept, e.Writable

/-- What fits later fitted before. -/
theorem Fits.of_prefix {kept kept' : List Entry} (h : Fits kept') (hinit : kept <+: kept') :
    Fits kept := by
  obtain ⟨added, rfl⟩ := hinit
  refine ⟨?_, fun e he => h.writable e (List.mem_append_left _ he)⟩
  have hslots := h.slots
  rw [List.map_append, List.sum_append] at hslots
  omega

/-- An entry that was asked for can be written if what is kept then can. -/
theorem Fits.writable_asked {kept : List Entry} {e : Entry}
    (h : Fits (insertNewBy Entry.label kept e)) : e.Writable := by
  unfold insertNewBy at h
  -- if its label was there, so was an entry that is written alike
  split at h
  · rename_i hmem
    obtain ⟨e', he', hlabel⟩ := List.mem_map.mp hmem
    exact (h.writable e' he').of_label hlabel.symm
  · exact h.writable e (by simp)

theorem Draft.text_mem_entries {d : Draft} {value : String} :
    Entry.text value ∈ d.entries ↔ value ∈ d.texts ∨ value = deprecatedAttribute := by
  simp only [Draft.entries, Draft.texts, List.mem_append, List.mem_cons, List.mem_flatMap,
    List.mem_map, Entry.text_mem_ofClass, Entry.text_mem_ofReference, Entry.text_mem_ofMember,
    List.not_mem_nil, or_false, exists_eq_right', Entry.text.injEq, reduceCtorEq, and_false,
    exists_false, false_or, or_and_right, exists_or]
  grind

/-- Limits on the texts and slots of the draft are limits on its constants. -/
theorem Draft.fits_kept {d : Draft} (htexts : ∀ s ∈ d.texts, (Text.utf8 s).length ≤ 65535)
    (hslots : d.slotCount ≤ 65534) : Fits d.kept := by
  refine ⟨hslots, ?_⟩
  intro e he
  have hasked : e ∈ d.entries := mem_of_mem_distinctBy he
  cases e with
  | text value =>
      rcases Draft.text_mem_entries.mp hasked with hmem | rfl
      · exact htexts value hmem
      · show (Text.utf8 "Deprecated").length ≤ 65535
        decide
  | _ => trivial

theorem Draft.WithinLimits.fits {d : Draft} (h : d.WithinLimits) : Fits d.kept :=
  Draft.fits_kept h.texts h.slots

end Linkage.ClassFile
