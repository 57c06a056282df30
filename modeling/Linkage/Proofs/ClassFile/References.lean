import Linkage.Proofs.ClassFile.Header

/-!
# Following the references

The reader notes the classes and the members of the pool in the order of the slots, that is in the
order in which they were first asked for. A class is named as it was given. A reference to a member
comes back with the name and the descriptor of the first reference whose signature joins to the same
text.

* **`References.noteEntry`** — what an entry of the pool adds, without the pool;
* **`Draft.standIn`** — a reference with the signature that it shares;
* **`Draft.classesRead`**, **`Draft.membersRead`** — what is noted in the end.
-/

namespace Linkage.ClassFile

/-- The name and the descriptor of a member as one text. -/
def joined (r : MemberRef) : String := r.name ++ ":" ++ r.descriptor

namespace Entry

def className? : Entry → Option String
  | .classNamed name => some name
  | _ => none

/-- The class that an entry refers to: the element class of an array, and nothing for `self`. -/
def plain? (self : String) (e : Entry) : Option String :=
  (e.className?.bind ClassName.element?).filter (· ≠ self)

def parts? : Entry → Option (String × String)
  | .signature name descriptor => some (name, descriptor)
  | _ => none

def reference? : Entry → Option MemberRef
  | .member r => some r
  | _ => none

end Entry

/-! ## Noting entries -/

/-- Notes what an entry refers to: a class other than `self`, or a member. -/
def References.noteEntry (self : String) (standIn : MemberRef → MemberRef) (refs : References)
    (e : Entry) : References where
  classes := (e.plain? self).elim refs.classes (insertNew refs.classes)
  members := (e.reference?.map standIn).elim refs.members (insertNew refs.members)

/-- Every signature in the pool that joins like this reference is the one that stands in for it. -/
def StandsIn (pool : Pool) (standIn : MemberRef → MemberRef) (r : MemberRef) : Prop :=
  ∀ ⦃index name descriptor⦄, pool.signature index = .ok (name, descriptor) →
    name ++ ":" ++ descriptor = joined r → standIn r = ⟨r.kind, r.owner, name, descriptor⟩

theorem note_classAt {pool : Pool} {self name : String} {i : UInt16} (refs : References)
    (hname : pool.text i = .ok name) :
    References.note pool self refs (.classAt i) =
      .ok { refs with classes :=
        ((ClassName.element? name).filter (· ≠ self)).elim refs.classes (insertNew refs.classes) } := by
  simp only [References.note, hname]
  cases hplain : ClassName.element? name with
  | none => simp [bind, Except.bind, hplain, pure, Except.pure]
  | some plain =>
      by_cases hself : plain = self
      · simp [bind, Except.bind, hplain, hself, pure, Except.pure, Option.filter]
      · simp [bind, Except.bind, hplain, hself, pure, Except.pure, Option.filter]

theorem Spells.noted {pool : Pool} {self : String} {standIn : MemberRef → MemberRef} {e : Entry}
    {cs : List Constant} (h : Spells pool e cs) (hstandIn : ∀ r, StandsIn pool standIn r)
    (refs : References) :
    cs.foldlM (References.note pool self) refs = .ok (refs.noteEntry self standIn e) := by
  cases h with
  | text value => rfl
  | @classNamed name i hname =>
      rw [List.foldlM_cons, note_classAt refs hname]
      rfl
  | signature hname hdescriptor => rfl
  | @member r o s name descriptor howner hsignature hjoined =>
      simp only [List.foldlM_cons, List.foldlM_nil, References.note, howner, hsignature,
        References.noteEntry, Entry.reference?, Option.map_some, hstandIn r hsignature hjoined]
      rfl
  | long value => rfl

theorem noted_flatten {pool : Pool} {self : String} {standIn : MemberRef → MemberRef}
    {kept : List Entry} {spelled : List (List Constant)}
    (h : List.Forall₂ (Spells pool) kept spelled) (hstandIn : ∀ r, StandsIn pool standIn r)
    (refs : References) :
    spelled.flatten.foldlM (References.note pool self) refs =
      .ok (kept.foldl (References.noteEntry self standIn) refs) := by
  induction h generalizing refs with
  | nil => rfl
  | @cons e cs kept spelled hfirst _ ih =>
      rw [List.flatten_cons, List.foldlM_append, hfirst.noted hstandIn]
      exact ih _

/-- Noting entries in turn: names without repetition, and references without repetition. -/
theorem foldl_noteEntry (self : String) (standIn : MemberRef → MemberRef) (kept : List Entry) :
    kept.foldl (References.noteEntry self standIn) ⟨[], []⟩ =
      ⟨distinct (kept.filterMap (Entry.plain? self)),
        distinct (kept.filterMap fun e => e.reference?.map standIn)⟩ := by
  induction kept using List.reverseRecOn with
  | nil => rfl
  | append_singleton kept e ih =>
      rw [List.foldl_append, ih, distinct_filterMap_concat, distinct_filterMap_concat]
      rfl

/-! ## The entries of a draft -/

namespace Draft

variable {d : Draft}

/-- The classes that a draft names, in the order in which it is written. -/
def classNames (d : Draft) : List String :=
  d.name :: (d.super.toList ++ d.interfaces ++ d.classRefs ++ d.memberRefs.map (·.owner))

/-- The reference with the signature that it shares with others: that of the first reference whose
name and descriptor join to the same text. -/
def standIn (d : Draft) (r : MemberRef) : MemberRef :=
  match d.memberRefs.find? (fun s => joined s = joined r) with
  | some s => { r with name := s.name, descriptor := s.descriptor }
  | none => r

/-- The classes that are read back: elements of arrays, each once, without the class itself. -/
def classesRead (d : Draft) : List String :=
  distinct ((d.classNames.filterMap ClassName.element?).filter (· ≠ d.name))

/-- The references that are read back: the first of each label, with the signature that it shares. -/
def membersRead (d : Draft) : List MemberRef :=
  distinct ((distinctBy (fun r => (Entry.member r).label) d.memberRefs).map d.standIn)

/-- A reading that passes over numbers and texts finds something at classes and references only. -/
theorem filterMap_entries {α : Type} {f : Entry → Option α} (atClass : String → Option α)
    (atReference : MemberRef → Option α) (hlong : ∀ value, f (.long value) = none)
    (htext : ∀ value, f (.text value) = none)
    (hclass : ∀ name, (Entry.ofClass name).filterMap f = (atClass name).toList)
    (hreference : ∀ r, (Entry.ofReference r).filterMap f = (atReference r).toList) (d : Draft) :
    d.entries.filterMap f =
      (d.name :: (d.super.toList ++ d.interfaces ++ d.classRefs)).filterMap atClass ++
        d.memberRefs.filterMap atReference := by
  have hmember : ∀ m, (Entry.ofMember m).filterMap f = [] := by
    intro m
    simp [Entry.ofMember, htext]
  simp [entries, List.filterMap_flatMap, List.filterMap_eq_flatMap_toList atClass,
    List.filterMap_eq_flatMap_toList atReference, hlong, htext, hclass, hreference, hmember]

theorem filterMap_className? (d : Draft) : d.entries.filterMap Entry.className? = d.classNames := by
  rw [filterMap_entries some (fun r => some r.owner) (fun _ => rfl) (fun _ => rfl) (fun _ => rfl)
    (fun _ => rfl)]
  simp [classNames]

theorem filterMap_parts? (d : Draft) :
    d.entries.filterMap Entry.parts? = d.memberRefs.map (fun r => (r.name, r.descriptor)) := by
  rw [filterMap_entries (fun _ => none) (fun r => some (r.name, r.descriptor)) (fun _ => rfl)
    (fun _ => rfl) (fun _ => rfl) (fun _ => rfl)]
  simp

theorem filterMap_reference? (d : Draft) : d.entries.filterMap Entry.reference? = d.memberRefs := by
  rw [filterMap_entries (fun _ => none) some (fun _ => rfl) (fun _ => rfl) (fun _ => rfl)
    (fun _ => rfl)]
  simp

theorem kept_className? (d : Draft) :
    d.kept.filterMap Entry.className? = distinct d.classNames := by
  rw [distinct_eq_distinctBy, ← filterMap_className?]
  apply filterMap_distinctBy
  intro e e' name hname
  cases e with
  | classNamed name' =>
      cases hname
      constructor
      · intro hlabel
        rw [Entry.eq_classNamed_of_label hlabel]
        exact ⟨name, rfl, rfl⟩
      · rintro ⟨name', hname', rfl⟩
        cases e' <;> simp_all [Entry.className?]
  | _ => cases hname

theorem kept_reference? (d : Draft) :
    d.kept.filterMap Entry.reference? = distinctBy (fun r => (Entry.member r).label) d.memberRefs := by
  rw [← filterMap_reference? d]
  apply filterMap_distinctBy
  intro e e' r hr
  cases e with
  | member r' =>
      cases hr
      constructor
      · intro hlabel
        obtain ⟨r', rfl, h⟩ := Entry.eq_member_of_label hlabel
        exact ⟨r', rfl, h⟩
      · rintro ⟨r', hr', h⟩
        cases e' <;> simp_all [Entry.reference?]
  | _ => cases hr

theorem kept_parts? (d : Draft) :
    d.kept.filterMap Entry.parts? =
      distinctBy (fun parts : String × String => parts.1 ++ ":" ++ parts.2)
        (d.memberRefs.map (fun r => (r.name, r.descriptor))) := by
  rw [← filterMap_parts? d]
  apply filterMap_distinctBy
  intro e e' parts hparts
  cases e with
  | signature name descriptor =>
      cases hparts
      constructor
      · intro hlabel
        obtain ⟨n, s, rfl, h⟩ := Entry.eq_signature_of_label hlabel
        exact ⟨(n, s), rfl, h⟩
      · rintro ⟨parts', hparts', h⟩
        cases e' <;> simp_all [Entry.parts?, Entry.label]
        subst hparts'
        exact h
  | _ => cases hparts

end Draft

/-! ## References read back -/

theorem exists_of_mem_right {α β : Type} {R : α → β → Prop} {xs : List α} {ys : List β}
    (h : List.Forall₂ R xs ys) {y : β} (hy : y ∈ ys) : ∃ x ∈ xs, R x y := by
  induction h with
  | nil => cases hy
  | @cons x y' xs ys hfirst _ ih =>
      rcases List.mem_cons.mp hy with rfl | hy
      · exact ⟨x, List.mem_cons_self, hfirst⟩
      · obtain ⟨x', hx', hR⟩ := ih hy
        exact ⟨x', List.mem_cons_of_mem _ hx', hR⟩

/-- A signature in the pool is that of an entry. -/
theorem Written.signature_mem {slots : Slots} {kept : List Entry} {spelled : List (List Constant)}
    (h : Written slots kept spelled) {index : UInt16} {name descriptor : String}
    (hsignature : (poolOf spelled).signature index = .ok (name, descriptor)) :
    Entry.signature name descriptor ∈ kept := by
  obtain ⟨i, j, hslot, hi, hj⟩ := Pool.signature_eq_ok.mp hsignature
  have hmem : Constant.signature i j ∈ spelled.flatten := by
    have hmem := List.mem_of_getElem? (List.getElem?_toArray.symm.trans hslot)
    simpa using hmem
  obtain ⟨cs, hcs, hc⟩ := List.mem_flatten.mp hmem
  obtain ⟨e, he, hspells⟩ := exists_of_mem_right h.spells hcs
  cases hspells with
  | signature hname hdescriptor =>
      injection List.mem_singleton.mp hc with hi' hj'
      subst hi' hj'
      rw [hname] at hi
      rw [hdescriptor] at hj
      cases hi
      cases hj
      exact he
  | _ => simp at hc

theorem Written.standsIn {d : Draft} {slots : Slots} {spelled : List (List Constant)}
    (h : Written slots d.kept spelled) (r : MemberRef) : StandsIn (poolOf spelled) d.standIn r := by
  intro index name descriptor hsignature hjoined
  have hmem : (name, descriptor) ∈ d.kept.filterMap Entry.parts? :=
    List.mem_filterMap.mpr ⟨_, h.signature_mem hsignature, rfl⟩
  rw [Draft.kept_parts?, mem_distinctBy, List.find?_map] at hmem
  obtain ⟨s, hs, hparts⟩ := Option.map_eq_some_iff.mp hmem
  injection hparts with hname hdescriptor
  have hfind : d.memberRefs.find? (fun s => joined s = joined r) = some s := by
    rw [← hjoined]
    exact hs
  rw [Draft.standIn, hfind, ← hname, ← hdescriptor]

/-- What the constants of a draft refer to. -/
theorem Written.references {d : Draft} {slots : Slots} {spelled : List (List Constant)}
    (h : Written slots d.kept spelled) :
    (poolOf spelled).references d.name = .ok ⟨d.classesRead, d.membersRead⟩ := by
  have hclasses : distinct (d.kept.filterMap (Entry.plain? d.name)) = d.classesRead := by
    have hkept : d.kept.filterMap (Entry.plain? d.name) =
        (d.kept.filterMap Entry.className?).filterMap
          fun name => (ClassName.element? name).filter (· ≠ d.name) := by
      rw [List.filterMap_filterMap]
      apply List.filterMap_congr
      intro e _
      unfold Entry.plain?
      cases e.className? <;> rfl
    rw [hkept, Draft.kept_className?, distinct_filterMap_distinct, Draft.classesRead,
      List.filter_filterMap]
  have hmembers : distinct (d.kept.filterMap fun e => e.reference?.map d.standIn) =
      d.membersRead := by
    rw [Draft.membersRead, ← Draft.kept_reference?, List.map_filterMap]
  rw [← hclasses, ← hmembers, ← foldl_noteEntry]
  exact noted_flatten h.spells h.standsIn ⟨[], []⟩

/-- What a draft within the limits is read back as, whatever follows it. -/
theorem Draft.WithinLimits.reads {d : Draft} (h : d.WithinLimits) :
    Reads readDefinition d.build (d.readBack ⟨d.classesRead, d.membersRead⟩) := by
  obtain ⟨spelled, hwritten, hlaid⟩ := h.layout
  exact hlaid.reads h hwritten hwritten.references

theorem Draft.WithinLimits.reads_back {d : Draft} (h : d.WithinLimits) :
    read d.build = .ok (d.readBack ⟨d.classesRead, d.membersRead⟩) := by
  have hread := h.reads []
  rw [List.append_nil] at hread
  rw [read, hread]
  rfl

end Linkage.ClassFile
