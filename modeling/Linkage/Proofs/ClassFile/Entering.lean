import Linkage.Proofs.ClassFile.Layout
import Linkage.Proofs.ClassFile.Numbering

/-!
# Constants entered one after the other

Writing a draft enters the constants that it asks for, each with the slots that its parts have by then. This
holds of every draft, within the limits of the format or not: what is too long is entered like anything else.

* **`Entry.constantBytes`**, **`Slots.enter`** — a constant as it is written, and what it adds;
* **`Enters`** — a step of writing enters these entries, for every step up to the whole layout;
* **`Draft.slots_eq`** — of the entries of a draft those that are kept are enough;
* **`Draft.build_of_kept`** — what stands in a class file before one constant of the pool.
-/

namespace Linkage.ClassFile

/-! ## One constant -/

/-- The slot of a label, 0 if nothing is known by it. -/
def Slots.slotOf (slots : Slots) (label : Label) : UInt16 := (slots.known.get? label).getD 0

/-- A constant as it is written, with the slots that its parts have. -/
def Entry.constantBytes (slots : Slots) : Entry → List UInt8
  | .text value => 1 :: bytes16 (UInt16.ofNat (Text.utf8 value).length) ++ Text.utf8 value
  | .classNamed name => 7 :: bytes16 (slots.slotOf (.text name))
  | .signature name descriptor =>
    12 :: bytes16 (slots.slotOf (.text name)) ++ bytes16 (slots.slotOf (.text descriptor))
  | .member r => Writing.memberTag r.kind :: bytes16 (slots.slotOf (.classNamed r.owner))
    ++ bytes16 (slots.slotOf (.signature (r.name ++ ":" ++ r.descriptor)))
  | .long value => 5 :: bytes64 value.toUInt64

namespace Slots

/-- Before anything is written. -/
def start : Slots := ⟨[], 1, Table.empty⟩

/-- Enters a constant, unless one is known by its label. -/
def enter (slots : Slots) (e : Entry) : Slots :=
  if slots.known.get? e.label = none then
    ⟨slots.bytes ++ e.constantBytes slots, slots.next + UInt16.ofNat e.width,
      slots.known.put e.label slots.next⟩
  else slots

variable {slots : Slots} {e : Entry}

theorem enter_new (h : slots.known.get? e.label = none) :
    slots.enter e = ⟨slots.bytes ++ e.constantBytes slots, slots.next + UInt16.ofNat e.width,
      slots.known.put e.label slots.next⟩ := if_pos h

theorem enter_known (h : slots.known.get? e.label ≠ none) : slots.enter e = slots := if_neg h

theorem prefix_enter (slots : Slots) (e : Entry) : slots.bytes <+: (slots.enter e).bytes := by
  unfold enter
  split
  · exact List.prefix_append _ _
  · exact List.prefix_rfl

theorem prefix_foldl_enter (es : List Entry) (slots : Slots) :
    slots.bytes <+: (es.foldl enter slots).bytes := by
  induction es generalizing slots with
  | nil => exact List.prefix_rfl
  | cons e es ih => exact (slots.prefix_enter e).trans (ih _)

/-- What is known keeps its slot. -/
theorem get?_enter {label : Label} {index : UInt16} (h : slots.known.get? label = some index) (e : Entry) :
    (slots.enter e).known.get? label = some index := by
  unfold enter
  split
  · next hnew =>
      have hne : label ≠ e.label := by
        rintro rfl
        rw [hnew] at h
        cases h
      rw [Table.get?_put, if_neg hne, h]
  · exact h

theorem get?_enter_self (slots : Slots) (e : Entry) :
    (slots.enter e).known.get? e.label = some ((slots.enter e).slotOf e.label) := by
  unfold slotOf enter
  split
  · simp
  · next hknown =>
      obtain ⟨index, hindex⟩ := Option.ne_none_iff_exists'.mp hknown
      rw [hindex]
      rfl

theorem slotOf_enter {label : Label} {index : UInt16} (h : slots.known.get? label = some index) (e : Entry) :
    (slots.enter e).slotOf label = index := by
  unfold slotOf
  rw [get?_enter h]
  rfl

theorem known_enter (slots : Slots) (e : Entry) (label : Label) :
    (slots.enter e).known.get? label ≠ none ↔ slots.known.get? label ≠ none ∨ label = e.label := by
  unfold enter
  split
  · rw [Table.get?_put]
    split <;> simp_all
  · next hknown =>
      refine ⟨Or.inl, ?_⟩
      rintro (h | rfl)
      · exact h
      · exact hknown

/-- What is known are the labels of what has been entered. -/
theorem known_foldl_enter (es : List Entry) (label : Label) :
    (es.foldl enter start).known.get? label ≠ none ↔ label ∈ es.map Entry.label := by
  induction es using List.reverseRecOn with
  | nil =>
      rw [List.map_nil]
      exact iff_of_false (not_not_intro rfl) List.not_mem_nil
  | append_singleton es e ih =>
      rw [List.foldl_append, List.foldl_cons, List.foldl_nil, known_enter, ih]
      simp

/-- The first entries of each label are enough. -/
theorem foldl_enter_distinctBy (es : List Entry) :
    (distinctBy Entry.label es).foldl enter start = es.foldl enter start := by
  induction es using List.reverseRecOn with
  | nil => rfl
  | append_singleton es e ih =>
      rw [distinctBy_concat, List.foldl_append, List.foldl_cons, List.foldl_nil, ← ih]
      unfold insertNewBy
      split
      · next hknown => rw [enter_known ((known_foldl_enter _ _).mpr hknown)]
      · rw [List.foldl_append]
        rfl

/-- Entries of different labels, entered one after the other: the constants of all of them, and the slot
behind them. -/
theorem foldl_enter_concat {es : List Entry} (h : ((es ++ [e]).map Entry.label).Nodup) :
    (es ++ [e]).foldl enter start = ⟨(es.foldl enter start).bytes ++ e.constantBytes (es.foldl enter start),
      (es.foldl enter start).next + UInt16.ofNat e.width,
      (es.foldl enter start).known.put e.label (es.foldl enter start).next⟩ := by
  rw [List.foldl_append]
  refine enter_new (by_contra fun hknown => ?_)
  rw [List.map_append, List.nodup_append] at h
  exact h.2.2 _ ((known_foldl_enter es _).mp hknown) _ (by simp) rfl

theorem next_foldl_enter {es : List Entry} (h : (es.map Entry.label).Nodup) :
    (es.foldl enter start).next = UInt16.ofNat ((es.map Entry.width).sum + 1) := by
  induction es using List.reverseRecOn with
  | nil => rfl
  | append_singleton es e ih =>
      have hes : (es.map Entry.label).Nodup := by
        rw [List.map_append] at h
        exact (List.nodup_append.mp h).1
      rw [foldl_enter_concat h, ih hes, ← UInt16.ofNat_add]
      simp only [List.map_append, List.map_cons, List.map_nil, List.sum_append, List.sum_cons, List.sum_nil]
      congr 1
      omega

end Slots

/-! ## Constants that can be read -/

/-- The constant of an entry whose text is not too long. -/
theorem Entry.Writable.exists_constant {e : Entry} (h : e.Writable) (slots : Slots) :
    ∃ c : RawConstant, e.constantBytes slots = c.bytes ∧ c.slots.length = e.width := by
  cases e with
  | text value => exact ⟨.text (Text.utf8 value) h, rfl, rfl⟩
  | classNamed name => exact ⟨.classAt (slots.slotOf (.text name)), rfl, rfl⟩
  | signature name descriptor =>
      exact ⟨.signature (slots.slotOf (.text name)) (slots.slotOf (.text descriptor)), rfl, rfl⟩
  | member r => exact ⟨.member r.kind (slots.slotOf (.classNamed r.owner))
      (slots.slotOf (.signature (r.name ++ ":" ++ r.descriptor))), rfl, rfl⟩
  | long value => exact ⟨.long value.toUInt64, rfl, rfl⟩

/-- What has been entered can be read, while no text was too long. -/
theorem exists_constants {es : List Entry} (hlabels : (es.map Entry.label).Nodup)
    (hes : ∀ e ∈ es, e.Writable) :
    ∃ cs : List RawConstant, (es.foldl Slots.enter Slots.start).bytes = cs.flatMap RawConstant.bytes ∧
      slotCount cs = (es.map Entry.width).sum := by
  induction es using List.reverseRecOn with
  | nil => exact ⟨[], rfl, rfl⟩
  | append_singleton es e ih =>
      have hfirst : (es.map Entry.label).Nodup := by
        rw [List.map_append] at hlabels
        exact (List.nodup_append.mp hlabels).1
      obtain ⟨cs, hbytes, hcount⟩ := ih hfirst fun e he => hes e (List.mem_append_left _ he)
      obtain ⟨c, hc, hwidth⟩ := (hes e (by simp)).exists_constant (es.foldl Slots.enter Slots.start)
      refine ⟨cs ++ [c], ?_, ?_⟩
      · rw [Slots.foldl_enter_concat hlabels, hbytes, hc]
        simp
      · unfold slotCount at hcount ⊢
        simp [hcount, hwidth]

/-! ## Steps of writing -/

/-- The step enters these entries, whatever has been entered before. -/
def Enters {α : Type} (m : Writing α) (es : List Entry) : Prop :=
  ∀ slots, (m.run slots).2 = es.foldl Slots.enter slots

namespace Enters

variable {α β : Type}

theorem pure (x : α) : Enters (Pure.pure x) [] := fun _ => rfl

theorem bind {m : Writing α} {f : α → Writing β} {es es' : List Entry} (hm : Enters m es)
    (hf : ∀ x, Enters (f x) es') : Enters (m >>= f) (es ++ es') := by
  intro slots
  rw [List.foldl_append, ← hm slots]
  exact hf (m.run slots).1 (m.run slots).2

theorem map {m : Writing α} {f : α → β} {es : List Entry} (hm : Enters m es) :
    Enters (m >>= fun x => Pure.pure (f x)) es := by
  have h := hm.bind fun x => pure (f x)
  rwa [List.append_nil] at h

theorem discard {m : Writing α} {es : List Entry} (hm : Enters m es) : Enters (discard m) es := hm

theorem forM {f : α → Writing Unit} {es : α → List Entry} (h : ∀ x, Enters (f x) (es x)) (xs : List α) :
    Enters (xs.forM f) (xs.flatMap es) := by
  induction xs with
  | nil => exact pure ()
  | cons x xs ih => exact (h x).bind fun _ => ih

theorem mapM {f : α → Writing β} {es : α → List Entry} (h : ∀ x, Enters (f x) (es x)) (xs : List α) :
    Enters (xs.mapM f) (xs.flatMap es) := by
  induction xs with
  | nil => exact pure []
  | cons x xs ih =>
      rw [List.mapM_cons, List.flatMap_cons]
      exact (h x).bind fun _ => ih.map

end Enters

/-! Where a constant has parts, they are entered before it, and keep their slots until then. -/

theorem run_intern (slots : Slots) (e : Entry) :
    (Writing.intern e.label (UInt16.ofNat e.width) (e.constantBytes slots)).run slots =
      ((slots.enter e).slotOf e.label, slots.enter e) := by
  cases h : slots.known.get? e.label with
  | none =>
      rw [run_intern_new h, Slots.enter_new h]
      simp [Slots.slotOf]
  | some index =>
      rw [run_intern_known h, Slots.enter_known (by simp [h])]
      simp [Slots.slotOf, h]

theorem run_text (slots : Slots) (value : String) :
    (Writing.text value).run slots =
      ((slots.enter (.text value)).slotOf (.text value), slots.enter (.text value)) :=
  run_intern slots (.text value)

theorem run_classNamed (slots : Slots) (name : String) :
    (Writing.classNamed name).run slots =
      (((Entry.ofClass name).foldl Slots.enter slots).slotOf (.classNamed name),
        (Entry.ofClass name).foldl Slots.enter slots) := by
  unfold Writing.classNamed
  rw [StateT.run_bind, run_text]
  exact run_intern (slots.enter (.text name)) (.classNamed name)

theorem run_signature (slots : Slots) (name descriptor : String) :
    (Writing.signature name descriptor).run slots =
      (((Entry.ofSignature name descriptor).foldl Slots.enter slots).slotOf
          (.signature (name ++ ":" ++ descriptor)),
        (Entry.ofSignature name descriptor).foldl Slots.enter slots) := by
  unfold Writing.signature
  rw [StateT.run_bind, run_text]
  have hname := Slots.slotOf_enter (slots.get?_enter_self (.text name)) (.text descriptor)
  simp only [StateT.run_bind, run_text]
  show (Writing.intern _ 1 (12 :: bytes16 ((slots.enter (.text name)).slotOf (.text name)) ++ _)).run _ = _
  rw [show (slots.enter (.text name)).slotOf (.text name) = _ from hname.symm]
  exact run_intern ((slots.enter (.text name)).enter (.text descriptor)) (.signature name descriptor)

theorem run_member (slots : Slots) (r : MemberRef) :
    (Writing.member r).run slots =
      (((Entry.ofReference r).foldl Slots.enter slots).slotOf (Entry.member r).label,
        (Entry.ofReference r).foldl Slots.enter slots) := by
  unfold Writing.member Entry.ofReference
  rw [StateT.run_bind, run_classNamed]
  generalize hsig : (Entry.ofClass r.owner).foldl Slots.enter slots = slots'
  have howner : slots'.known.get? (.classNamed r.owner) = some (slots'.slotOf (.classNamed r.owner)) := by
    rw [← hsig]
    exact Slots.get?_enter_self _ (.classNamed r.owner)
  simp only [StateT.run_bind, run_signature, List.foldl_append, hsig]
  -- the signature leaves the owner in its slot
  have hkept : ((Entry.ofSignature r.name r.descriptor).foldl Slots.enter slots').slotOf
      (.classNamed r.owner) = slots'.slotOf (.classNamed r.owner) :=
    Slots.slotOf_enter (Slots.get?_enter (Slots.get?_enter howner _) _) _
  show (Writing.intern _ 1 (Writing.memberTag r.kind :: bytes16 (slots'.slotOf (.classNamed r.owner)) ++ _)).run
    _ = _
  rw [← hkept]
  exact run_intern ((Entry.ofSignature r.name r.descriptor).foldl Slots.enter slots') (.member r)

theorem enters_parent (name? : Option String) :
    Enters (Writing.parent name?) (name?.toList.flatMap Entry.ofClass) := by
  cases name? with
  | none => exact .pure 0
  | some name =>
      intro slots
      show ((Writing.classNamed name).run slots).2 = (Entry.ofClass name ++ []).foldl Slots.enter slots
      rw [run_classNamed, List.append_nil]

theorem enters_place (m : Member) : Enters (Writing.place m) (Entry.ofMember m) := by
  have htext : ∀ value, Enters (Writing.text value) [.text value] := by
    intro value slots
    rw [run_text]
    rfl
  exact (htext m.name).bind fun _ => (htext m.descriptor).map

/-- Writing a draft enters what the draft asks for. -/
theorem enters_layout (d : Draft) : Enters d.layout d.entries := by
  have hclass : ∀ name, Enters (Writing.classNamed name) (Entry.ofClass name) := by
    intro name slots
    rw [run_classNamed]
  have hmember : ∀ r, Enters (Writing.member r) (Entry.ofReference r) := by
    intro r slots
    rw [run_member]
  have hlong : ∀ value, Enters (Writing.long value) [.long value] := by
    intro value slots
    exact congrArg Prod.snd (run_intern slots (.long value))
  have hmark : Enters (Writing.text deprecatedAttribute) [.text deprecatedAttribute] := by
    intro slots
    rw [run_text]
    rfl
  rw [Draft.layout_eq, Draft.entries]
  simp only [List.append_assoc, List.map_eq_flatMap]
  refine (Enters.forM (fun value => (hlong value).discard) d.longs).bind fun _ => ?_
  refine (hclass d.name).bind fun self => (enters_parent d.super).bind fun super => ?_
  refine (Enters.mapM hclass d.interfaces).bind fun interfaces => ?_
  refine (Enters.forM (fun name => (hclass name).discard) d.classRefs).bind fun _ => ?_
  refine (Enters.forM (fun r => (hmember r).discard) d.memberRefs).bind fun _ => ?_
  refine hmark.bind fun mark => (Enters.mapM enters_place d.fields).bind fun fields => ?_
  exact (Enters.mapM enters_place d.methods).map

/-! ## The constants of a draft -/

namespace Draft

theorem slots_eq (d : Draft) :
    (d.layout.run ⟨[], 1, Table.empty⟩).2 = d.kept.foldl Slots.enter Slots.start := by
  rw [Draft.kept, Slots.foldl_enter_distinctBy]
  exact enters_layout d Slots.start

theorem nodup_kept (d : Draft) : (d.kept.map Entry.label).Nodup := nodup_map_distinctBy _ _

/-- The beginning of the class file, up to the number of slots. -/
def opening (d : Draft) : List UInt8 :=
  bytes32 magic ++ bytes16 0 ++ bytes16 writtenMajor ++ bytes16 (UInt16.ofNat (d.slotCount + 1))

/-- Before a constant stand those that were entered before it. -/
theorem build_of_kept {d : Draft} {before after : List Entry} {e : Entry}
    (h : d.kept = before ++ e :: after) :
    ∃ more, d.build = d.opening ++ ((before.foldl Slots.enter Slots.start).bytes
      ++ (e.constantBytes (before.foldl Slots.enter Slots.start) ++ more)) := by
  have hlabels := d.nodup_kept
  have hfirst : ((before ++ [e]).map Entry.label).Nodup := by
    rw [h, List.append_cons, List.map_append] at hlabels
    exact (List.nodup_append.mp hlabels).1
  have hslots : (d.layout.run ⟨[], 1, Table.empty⟩).2 =
      after.foldl Slots.enter ((before ++ [e]).foldl Slots.enter Slots.start) := by
    rw [slots_eq, h, List.append_cons, List.foldl_append]
  obtain ⟨added, hadded⟩ := Slots.prefix_foldl_enter after ((before ++ [e]).foldl Slots.enter Slots.start)
  have hnext : (d.layout.run ⟨[], 1, Table.empty⟩).2.next = UInt16.ofNat (d.slotCount + 1) := by
    rw [slots_eq, Slots.next_foldl_enter hlabels]
    rfl
  have hbytes : (d.layout.run ⟨[], 1, Table.empty⟩).2.bytes =
      (before.foldl Slots.enter Slots.start).bytes
        ++ e.constantBytes (before.foldl Slots.enter Slots.start) ++ added := by
    rw [hslots, ← hadded, Slots.foldl_enter_concat hfirst]
  rw [build_eq, assemble, hnext, hbytes, opening]
  simp only [List.append_assoc]
  exact ⟨_, rfl⟩

end Draft

end Linkage.ClassFile
