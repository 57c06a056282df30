import Linkage.Proofs.ClassFile.Bytes
import Linkage.Proofs.ClassFile.Entries

/-!
# Constants find their slots

While constants are written, the pool that will be read from them grows. The argument follows it:

* **`Pool.Grows`** — a later pool has what an earlier one had, in the same slots;
* **`Spells`** — what a constant reads as, through the slots that it points to;
* **`Written`** — the bytes so far, the table of labels and the pool agree;
* **`Serves`** — a step of writing keeps them in agreement, keeps what it was asked for, and finds
  slots in which every later pool has the right thing.

Steps that serve compose, so the layout of a draft is followed step by step.
-/

namespace Linkage.ClassFile

/-! ## Growing pools -/

/-- Every slot that is filled in the first pool is filled alike in the second. -/
def Pool.Grows (pool pool' : Pool) : Prop :=
  ∀ ⦃i : Nat⦄ ⦃c : Constant⦄, pool[i]? = some c → pool'[i]? = some c

/-- The property holds of every pool that this one can grow to, itself included. -/
def Pool.Later (pool : Pool) (P : Pool → Prop) : Prop :=
  ∀ ⦃pool'⦄, pool.Grows pool' → P pool'

namespace Pool

variable {pool pool' pool'' : Pool} {P Q : Pool → Prop}

theorem Grows.refl (pool : Pool) : pool.Grows pool := fun _ _ h => h

theorem Grows.trans (h : pool.Grows pool') (h' : pool'.Grows pool'') : pool.Grows pool'' :=
  fun _ _ hc => h' (h hc)

theorem Later.now (h : pool.Later P) : P pool := h (Grows.refl pool)

theorem Later.grow (h : pool.Later P) (hgrows : pool.Grows pool') : pool'.Later P :=
  fun _ hgrows' => h (hgrows.trans hgrows')

theorem Later.imp (h : pool.Later P) (himp : ∀ pool', P pool' → Q pool') : pool.Later Q :=
  fun pool' hgrows => himp pool' (h hgrows)

theorem Later.and (hP : pool.Later P) (hQ : pool.Later Q) :
    pool.Later (fun pool' => P pool' ∧ Q pool') :=
  fun _ hgrows => ⟨hP hgrows, hQ hgrows⟩

/-! Look-ups that succeed, constant by constant. -/

theorem text_eq_ok {index : UInt16} {value : String} :
    pool.text index = .ok value ↔ pool[index.toNat]? = some (.text value) := by
  unfold text
  split <;> simp_all

theorem className_eq_ok {index : UInt16} {name : String} :
    pool.className index = .ok name ↔
      ∃ i, pool[index.toNat]? = some (.classAt i) ∧ pool.text i = .ok name := by
  unfold className
  split <;> simp_all

theorem signature_eq_ok {index : UInt16} {name descriptor : String} :
    pool.signature index = .ok (name, descriptor) ↔
      ∃ i j, pool[index.toNat]? = some (.signature i j) ∧ pool.text i = .ok name ∧
        pool.text j = .ok descriptor := by
  unfold signature
  split
  · rename_i i j hslot
    rw [hslot]
    constructor
    · intro h
      cases hi : pool.text i with
      | error => simp [hi, bind, Except.bind] at h
      | ok n =>
          cases hj : pool.text j with
          | error => simp [hi, hj, bind, Except.bind] at h
          | ok s =>
              simp [hi, hj, bind, Except.bind, pure, Except.pure] at h
              exact ⟨i, j, rfl, h.1 ▸ hi, h.2 ▸ hj⟩
    · rintro ⟨i', j', hslot', hi, hj⟩
      injection hslot' with hslot'
      injection hslot' with hi' hj'
      subst hi' hj'
      rw [hi, hj]
      rfl
  · rename_i hslot
    constructor
    · intro h
      cases h
    · rintro ⟨i, j, hslot', _, _⟩
      exact absurd hslot' (hslot i j)

theorem Grows.text (h : pool.Grows pool') {index : UInt16} {value : String}
    (hvalue : pool.text index = .ok value) : pool'.text index = .ok value :=
  text_eq_ok.mpr (h (text_eq_ok.mp hvalue))

theorem Grows.className (h : pool.Grows pool') {index : UInt16} {name : String}
    (hname : pool.className index = .ok name) : pool'.className index = .ok name := by
  obtain ⟨i, hslot, htext⟩ := className_eq_ok.mp hname
  exact className_eq_ok.mpr ⟨i, h hslot, h.text htext⟩

theorem Grows.signature (h : pool.Grows pool') {index : UInt16} {parts : String × String}
    (hparts : pool.signature index = .ok parts) : pool'.signature index = .ok parts := by
  obtain ⟨i, j, hslot, hi, hj⟩ := signature_eq_ok.mp hparts
  exact signature_eq_ok.mpr ⟨i, j, h hslot, h.text hi, h.text hj⟩

end Pool

/-! ## What constants say -/

/-- The constants that an entry is written as. The signature of a reference was found by its joined
text, so its parts need not be those that the reference gives. -/
inductive Spells (pool : Pool) : Entry → List Constant → Prop
  | text (value : String) : Spells pool (.text value) [.text value]
  | classNamed {name : String} {i : UInt16} (hname : pool.text i = .ok name) :
      Spells pool (.classNamed name) [.classAt i]
  | signature {name descriptor : String} {i j : UInt16} (hname : pool.text i = .ok name)
      (hdescriptor : pool.text j = .ok descriptor) :
      Spells pool (.signature name descriptor) [.signature i j]
  | member {r : MemberRef} {o s : UInt16} {name descriptor : String}
      (howner : pool.className o = .ok r.owner)
      (hsignature : pool.signature s = .ok (name, descriptor))
      (hjoined : name ++ ":" ++ descriptor = r.name ++ ":" ++ r.descriptor) :
      Spells pool (.member r) [.member r.kind o s]
  | long (value : Int64) : Spells pool (.long value) [.other, .other]

theorem Spells.grow {pool pool' : Pool} {e : Entry} {cs : List Constant} (h : Spells pool e cs)
    (hgrows : pool.Grows pool') : Spells pool' e cs := by
  cases h with
  | text value => exact .text value
  | classNamed hname => exact .classNamed (hgrows.text hname)
  | signature hname hdescriptor => exact .signature (hgrows.text hname) (hgrows.text hdescriptor)
  | member howner hsignature hjoined =>
      exact .member (hgrows.className howner) (hgrows.signature hsignature) hjoined
  | long value => exact .long value

theorem Spells.length {pool : Pool} {e : Entry} {cs : List Constant} (h : Spells pool e cs) :
    cs.length = e.width := by
  cases h <;> rfl

/-- An entry with this label begins in the slot. -/
def Stands (pool : Pool) (index : UInt16) (label : Label) : Prop :=
  ∃ e c cs, e.label = label ∧ Spells pool e (c :: cs) ∧ pool[index.toNat]? = some c

theorem Stands.grow {pool pool' : Pool} {index : UInt16} {label : Label}
    (h : Stands pool index label) (hgrows : pool.Grows pool') : Stands pool' index label := by
  obtain ⟨e, c, cs, hlabel, hspells, hslot⟩ := h
  exact ⟨e, c, cs, hlabel, hspells.grow hgrows, hgrows hslot⟩

theorem Stands.text {pool : Pool} {index : UInt16} {value : String}
    (h : Stands pool index (.text value)) : pool.text index = .ok value := by
  obtain ⟨e, c, cs, hlabel, hspells, hslot⟩ := h
  rw [Entry.eq_text_of_label hlabel] at hspells
  cases hspells
  exact Pool.text_eq_ok.mpr hslot

theorem Stands.className {pool : Pool} {index : UInt16} {name : String}
    (h : Stands pool index (.classNamed name)) : pool.className index = .ok name := by
  obtain ⟨e, c, cs, hlabel, hspells, hslot⟩ := h
  rw [Entry.eq_classNamed_of_label hlabel] at hspells
  cases hspells with
  | classNamed hname => exact Pool.className_eq_ok.mpr ⟨_, hslot, hname⟩

theorem Stands.signature {pool : Pool} {index : UInt16} {joined : String}
    (h : Stands pool index (.signature joined)) :
    ∃ name descriptor, pool.signature index = .ok (name, descriptor) ∧
      name ++ ":" ++ descriptor = joined := by
  obtain ⟨e, c, cs, hlabel, hspells, hslot⟩ := h
  obtain ⟨name, descriptor, rfl, hjoined⟩ := Entry.eq_signature_of_label hlabel
  cases hspells with
  | signature hname hdescriptor =>
      exact ⟨name, descriptor, Pool.signature_eq_ok.mpr ⟨_, _, hslot, hname, hdescriptor⟩, hjoined⟩

/-! ## The state of writing -/

/-- A constant that is known by its label is not written again. -/
theorem run_intern_known {slots : Slots} {label : Label} {index : UInt16}
    (h : slots.known.get? label = some index) (width : UInt16) (encoded : List UInt8) :
    (Writing.intern label width encoded).run slots = (index, slots) := by
  simp only [Writing.intern, StateT.run_bind, StateT.run_get, pure_bind, h]
  rfl

theorem run_intern_new {slots : Slots} {label : Label} (h : slots.known.get? label = none)
    (width : UInt16) (encoded : List UInt8) :
    (Writing.intern label width encoded).run slots = (slots.next,
      ⟨slots.bytes ++ encoded, slots.next + width, slots.known.put label slots.next⟩) := by
  simp only [Writing.intern, StateT.run_bind, StateT.run_get, pure_bind, h]
  rfl

/-- The pool of the constants that were written, entry by entry. -/
def poolOf (spelled : List (List Constant)) : Pool := (.other :: spelled.flatten).toArray

theorem grows_poolOf {spelled spelled' : List (List Constant)} (h : spelled <+: spelled') :
    (poolOf spelled).Grows (poolOf spelled') := by
  obtain ⟨added, rfl⟩ := h
  intro i c hslot
  simp only [poolOf, List.getElem?_toArray] at hslot ⊢
  rw [List.flatten_append, ← List.cons_append, List.getElem?_append_left]
  · exact hslot
  · exact (List.getElem?_eq_some_iff.mp hslot).1

/-- The kept entries were written, each label once, and are found again under their labels. -/
structure Written (slots : Slots) (kept : List Entry) (spelled : List (List Constant)) : Prop where
  fills : Fills slots.bytes spelled.flatten
  spells : List.Forall₂ (Spells (poolOf spelled)) kept spelled
  next : slots.next.toNat = spelled.flatten.length + 1
  known : ∀ e ∈ kept, ∃ index, slots.known.get? e.label = some index ∧
    Stands (poolOf spelled) index e.label
  unknown : ∀ label, slots.known.get? label ≠ none → label ∈ kept.map Entry.label

namespace Written

variable {slots : Slots} {kept : List Entry} {spelled : List (List Constant)}

theorem empty : Written ⟨[], 1, Table.empty⟩ [] [] where
  fills := Fills.nil
  spells := .nil
  next := rfl
  known := by simp
  unknown := by
    intro label h
    exact absurd rfl h

theorem length_flatten (h : Written slots kept spelled) :
    spelled.flatten.length = (kept.map Entry.width).sum := by
  have hspells := h.spells
  -- the pool stays what it is while the lists are taken apart
  generalize poolOf spelled = pool at hspells
  clear h
  induction hspells with
  | nil => rfl
  | cons hfirst _ ih =>
      rw [List.flatten_cons, List.length_append, List.map_cons, List.sum_cons, hfirst.length, ih]

theorem slot_next (h : Written slots kept spelled) (c : Constant) (cs : List Constant) :
    (poolOf (spelled ++ [c :: cs]))[slots.next.toNat]? = some c := by
  rw [h.next]
  simp [poolOf]

theorem concat (h : Written slots kept spelled) {e : Entry} {width : UInt16}
    {encoded : List UInt8} {cs : List Constant} (hnew : e.label ∉ kept.map Entry.label)
    (hwidth : width.toNat = e.width) (hfits : Fits (kept ++ [e])) (hencoded : Fills encoded cs)
    (hspells : (poolOf spelled).Later (Spells · e cs)) :
    Written ⟨slots.bytes ++ encoded, slots.next + width, slots.known.put e.label slots.next⟩
        (kept ++ [e]) (spelled ++ [cs]) ∧
      Stands (poolOf (spelled ++ [cs])) slots.next e.label := by
  have hgrows : (poolOf spelled).Grows (poolOf (spelled ++ [cs])) :=
    grows_poolOf (List.prefix_append _ _)
  have hlast : Spells (poolOf (spelled ++ [cs])) e cs := hspells hgrows
  have hstands : Stands (poolOf (spelled ++ [cs])) slots.next e.label := by
    cases cs with
    | nil => cases hlast
    | cons c cs => exact ⟨e, c, cs, rfl, hlast, h.slot_next c cs⟩
  refine ⟨{ fills := ?_, spells := ?_, next := ?_, known := ?_, unknown := ?_ }, hstands⟩
  · rw [List.flatten_append, List.flatten_singleton]
    exact h.fills.append hencoded
  · exact List.rel_append (h.spells.imp fun _ _ hspells => hspells.grow hgrows)
      (.cons hlast .nil)
  · -- no slot number wraps, because everything that is kept fits
    have hsum := hfits.slots
    rw [List.map_append, List.sum_append, ← h.length_flatten] at hsum
    simp only [List.map_cons, List.map_nil, List.sum_cons, List.sum_nil] at hsum
    rw [List.flatten_append, List.flatten_singleton, List.length_append, hlast.length,
      UInt16.toNat_add, h.next, hwidth]
    omega
  · intro e' he'
    rw [Table.get?_put]
    rcases List.mem_append.mp he' with he' | he'
    · -- the new label hides none of the old ones
      have hne : e'.label ≠ e.label := fun heq => hnew (heq ▸ List.mem_map_of_mem he')
      obtain ⟨index, hindex, hstands'⟩ := h.known e' he'
      exact ⟨index, by rw [if_neg hne, hindex], hstands'.grow hgrows⟩
    · rw [List.mem_singleton.mp he', if_pos rfl]
      exact ⟨slots.next, rfl, hstands⟩
  · intro label hlabel
    rw [List.map_append, List.mem_append]
    rw [Table.get?_put] at hlabel
    by_cases heq : label = e.label
    · exact Or.inr (by simp [heq])
    · rw [if_neg heq] at hlabel
      exact Or.inl (h.unknown label hlabel)

/-- An entry is asked for: it is found again or written at the end. -/
theorem intern (h : Written slots kept spelled) {e : Entry} {width : UInt16}
    {encoded : List UInt8} {cs : List Constant} (hwidth : width.toNat = e.width)
    (hfits : Fits (insertNewBy Entry.label kept e)) (hencoded : e.Writable → Fills encoded cs)
    (hspells : (poolOf spelled).Later (Spells · e cs)) :
    ∃ spelled', Written ((Writing.intern e.label width encoded).run slots).2
        (insertNewBy Entry.label kept e) spelled' ∧
      (poolOf spelled).Grows (poolOf spelled') ∧
      Stands (poolOf spelled') ((Writing.intern e.label width encoded).run slots).1 e.label := by
  have hwritable := hfits.writable_asked
  unfold insertNewBy at hfits ⊢
  by_cases hmem : e.label ∈ kept.map Entry.label
  · obtain ⟨e', he', hlabel⟩ := List.mem_map.mp hmem
    obtain ⟨index, hindex, hstands⟩ := h.known e' he'
    rw [hlabel] at hindex hstands
    rw [run_intern_known hindex, if_pos hmem]
    exact ⟨spelled, h, .refl _, hstands⟩
  · have hnone : slots.known.get? e.label = none := by
      by_contra hsome
      exact hmem (h.unknown _ hsome)
    rw [if_neg hmem] at hfits
    rw [run_intern_new hnone, if_neg hmem]
    obtain ⟨hwritten, hstands⟩ := h.concat hmem hwidth hfits (hencoded hwritable) hspells
    exact ⟨spelled ++ [cs], hwritten, grows_poolOf (List.prefix_append _ _), hstands⟩

end Written

/-! ## Steps of writing -/

variable {α β : Type} {given given' : Pool → Prop} {es es' : List Entry}

/-- The step asks for these entries. Where `given` holds from now on, it keeps them, and what it
finds is right from then on. -/
def Serves (given : Pool → Prop) (m : Writing α) (es : List Entry) (found : Pool → α → Prop) :
    Prop :=
  ∀ ⦃slots kept spelled⦄, Written slots kept spelled → (poolOf spelled).Later given →
    Fits (es.foldl (insertNewBy Entry.label) kept) →
    ∃ spelled', Written (m.run slots).2 (es.foldl (insertNewBy Entry.label) kept) spelled' ∧
      (poolOf spelled).Grows (poolOf spelled') ∧
      (poolOf spelled').Later (found · (m.run slots).1)

namespace Serves

variable {m : Writing α} {f : α → Writing β} {found : Pool → α → Prop} {found' : Pool → β → Prop}

theorem pure (x : α) (h : ∀ pool, given pool → found pool x) : Serves given (Pure.pure x) [] found := by
  intro slots kept spelled hwritten hgiven _
  exact ⟨spelled, hwritten, .refl _, hgiven.imp h⟩

theorem bind (hm : Serves given m es found)
    (hf : ∀ x, Serves (fun pool => given pool ∧ found pool x) (f x) es' found') :
    Serves given (m >>= f) (es ++ es') found' := by
  intro slots kept spelled hwritten hgiven hfits
  -- the second step begins with what the first one kept, and all of it fits if the whole does
  rw [List.foldl_append] at hfits ⊢
  have hfits₁ := hfits.of_prefix (prefix_foldl_insertNewBy _ _ _)
  obtain ⟨spelled₁, hwritten₁, hgrows₁, hfound₁⟩ := hm hwritten hgiven hfits₁
  obtain ⟨spelled₂, hwritten₂, hgrows₂, hfound₂⟩ :=
    hf _ hwritten₁ ((hgiven.grow hgrows₁).and hfound₁) hfits
  exact ⟨spelled₂, hwritten₂, hgrows₁.trans hgrows₂, hfound₂⟩

/-- What was given still holds of what is found. -/
theorem imp {found₂ : Pool → α → Prop} (h : Serves given m es found)
    (hgiven : ∀ pool, given' pool → given pool)
    (hfound : ∀ pool x, given' pool → found pool x → found₂ pool x) :
    Serves given' m es found₂ := by
  intro slots kept spelled hwritten hgiven' hfits
  obtain ⟨spelled', hwritten', hgrows, hfound'⟩ := h hwritten (hgiven'.imp hgiven) hfits
  refine ⟨spelled', hwritten', hgrows, ?_⟩
  exact ((hgiven'.grow hgrows).and hfound').imp fun pool h => hfound pool _ h.1 h.2

/-- A last step that only puts together what was found. -/
theorem map {g : α → β} (hm : Serves given m es found)
    (hg : ∀ pool x, given pool → found pool x → found' pool (g x)) :
    Serves given (m >>= fun x => Pure.pure (g x)) es found' := by
  rw [← List.append_nil es]
  exact hm.bind fun x => .pure (g x) fun pool h => hg pool x h.1 h.2

theorem discard (h : Serves given m es found) :
    Serves given (discard m) es (fun _ _ => True) := by
  intro slots kept spelled hwritten hgiven hfits
  obtain ⟨spelled', hwritten', hgrows, _⟩ := h hwritten hgiven hfits
  exact ⟨spelled', hwritten', hgrows, fun _ _ => trivial⟩

theorem forM {f : α → Writing Unit} {entries : α → List Entry} (xs : List α)
    (h : ∀ (given : Pool → Prop) (x : α), Serves given (f x) (entries x) (fun _ _ => True)) :
    Serves given (xs.forM f) (xs.flatMap entries) (fun _ _ => True) := by
  induction xs generalizing given with
  | nil => exact .pure () fun _ _ => trivial
  | cons x rest ih => exact (h given x).bind fun _ => ih

theorem mapM {f : α → Writing β} {entries : α → List Entry} {found : Pool → α → β → Prop}
    (xs : List α) (h : ∀ (given : Pool → Prop) (x : α),
      Serves given (f x) (entries x) (fun pool y => found pool x y)) :
    Serves given (xs.mapM f) (xs.flatMap entries)
      (fun pool ys => List.Forall₂ (found pool) xs ys) := by
  -- what was found for the first elements is given for the others
  induction xs generalizing given with
  | nil =>
      rw [List.mapM_nil]
      exact .pure [] fun _ _ => .nil
  | cons x rest ih =>
      rw [List.mapM_cons, List.flatMap_cons]
      apply (h given x).bind
      intro y
      exact ih.map fun _ _ h hys => .cons h.2 hys

/-! ### Constants -/

theorem intern (e : Entry) (width : UInt16) {encoded : List UInt8} {cs : List Constant}
    {found : Pool → UInt16 → Prop} (hwidth : width.toNat = e.width)
    (hencoded : e.Writable → Fills encoded cs) (hspells : ∀ pool, given pool → Spells pool e cs)
    (hfound : ∀ pool index, Stands pool index e.label → found pool index) :
    Serves given (Writing.intern e.label width encoded) [e] found := by
  intro slots kept spelled hwritten hgiven hfits
  obtain ⟨spelled', hwritten', hgrows, hstands⟩ :=
    hwritten.intern hwidth hfits hencoded (hgiven.imp hspells)
  exact ⟨spelled', hwritten', hgrows, fun _ hgrows' => hfound _ _ (hstands.grow hgrows')⟩

theorem text (value : String) :
    Serves given (Writing.text value) [.text value]
      (fun pool index => pool.text index = .ok value) := by
  apply intern (.text value) 1 rfl fills_text
  · exact fun _ _ => .text value
  · exact fun _ _ h => h.text

theorem classNamed (name : String) :
    Serves given (Writing.classNamed name) (Entry.ofClass name)
      (fun pool index => pool.className index = .ok name) := by
  apply (text name).bind
  intro i
  apply intern (.classNamed name) 1 rfl fun _ => fills_class i
  · exact fun _ h => .classNamed h.2
  · exact fun _ _ h => h.className

theorem signature (name descriptor : String) :
    Serves given (Writing.signature name descriptor) (Entry.ofSignature name descriptor)
      (fun pool index => ∃ n d, pool.signature index = .ok (n, d) ∧
        n ++ ":" ++ d = name ++ ":" ++ descriptor) := by
  apply (text name).bind
  intro i
  apply (text descriptor).bind
  intro j
  apply intern (.signature name descriptor) 1 rfl fun _ => fills_signature i j
  · exact fun _ h => .signature h.1.2 h.2
  · exact fun _ _ h => h.signature

theorem member (r : MemberRef) :
    Serves given (Writing.member r) (Entry.ofReference r) (fun _ _ => True) := by
  apply (classNamed r.owner).bind
  intro o
  apply (signature r.name r.descriptor).bind
  intro s
  apply intern (.member r) 1 rfl fun _ => fills_member r.kind o s
  · intro pool h
    obtain ⟨⟨_, howner⟩, n, d, hsignature, hjoined⟩ := h
    exact .member howner hsignature hjoined
  · exact fun _ _ _ => trivial

theorem long (value : Int64) :
    Serves given (Writing.long value) [.long value] (fun _ _ => True) := by
  apply intern (.long value) 2 rfl fun _ => fills_long value.toUInt64
  · exact fun _ _ => .long value
  · exact fun _ _ _ => trivial

end Serves

end Linkage.ClassFile
