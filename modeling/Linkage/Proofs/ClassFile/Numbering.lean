import Linkage.Proofs.ClassFile.Coverage

/-!
# The numbers of constants

A class file numbers its constants by the slots that they take, while the reader goes on byte by byte. A
constant of eight bytes takes two slots, so that numbers, constants and bytes advance at different rates.
However the kinds of constants are mixed, every constant comes to stand under its own number.

* **`RawConstant`** — a constant of any of the seventeen kinds, with its bytes and its slots;
* **`StartsAt`** — the slot at which a constant starts;
* **`Pool.Holds`** — a pool has all constants under their numbers, and finds nothing else under any;
* **`readFrom`**, **`readCounted_eq`** — reading by an index of sixteen bits, which is always enough;
* **`readPool_numbers`** — what is made of constants up to a declared count, of a wide constant in the last
  slot, and of a tag that no constant has.
-/

namespace Linkage.ClassFile

/-! ## Constants of every kind -/

/-- A constant as it stands in a class file. -/
inductive RawConstant where
  | text (bytes : List UInt8) (measured : bytes.length ≤ 65535)
  | integer (bits : UInt32)
  | float (bits : UInt32)
  | long (bits : UInt64)
  | double (bits : UInt64)
  | classAt (name : UInt16)
  | stringAt (text : UInt16)
  | member (kind : MemberKind) (owner signature : UInt16)
  | signature (name descriptor : UInt16)
  | methodHandle (kind : UInt8) (target : UInt16)
  | methodType (descriptor : UInt16)
  | dynamic (bootstrap signature : UInt16)
  | invokeDynamic (bootstrap signature : UInt16)
  | moduleAt (name : UInt16)
  | packageAt (name : UInt16)

namespace RawConstant

/-- The byte that tells the kind. -/
def tag : RawConstant → UInt8
  | text _ _ => 1
  | integer _ => 3
  | float _ => 4
  | long _ => 5
  | double _ => 6
  | classAt _ => 7
  | stringAt _ => 8
  | member kind _ _ => Writing.memberTag kind
  | signature _ _ => 12
  | methodHandle _ _ => 15
  | methodType _ => 16
  | dynamic _ _ => 17
  | invokeDynamic _ _ => 18
  | moduleAt _ => 19
  | packageAt _ => 20

/-- What follows the tag. -/
def payload : RawConstant → List UInt8
  | text bytes _ => bytes16 (UInt16.ofNat bytes.length) ++ bytes
  | integer bits | float bits => bytes32 bits
  | long bits | double bits => bytes64 bits
  | classAt i | stringAt i | methodType i | moduleAt i | packageAt i => bytes16 i
  | member _ i j | signature i j | dynamic i j | invokeDynamic i j => bytes16 i ++ bytes16 j
  | methodHandle kind i => kind :: bytes16 i

def bytes (c : RawConstant) : List UInt8 := c.tag :: c.payload

/-- It takes two slots. -/
def isWide : RawConstant → Bool
  | long _ | double _ => true
  | _ => false

/-- What it says about linkage. -/
def meaning : RawConstant → Constant
  | text bytes _ => .text (Text.decodeLossy bytes)
  | classAt name => .classAt name
  | member kind owner sig => .member kind owner sig
  | signature name descriptor => .signature name descriptor
  | _ => .other

/-- It is no text, no class and no signature, so that no look-up is meant for it. -/
def isUnnamed : RawConstant → Bool
  | text _ _ | classAt _ | signature _ _ => false
  | _ => true

/-- What comes to stand in its slots. -/
def slots (c : RawConstant) : List Constant :=
  if c.isWide then [.other, .other] else [c.meaning]

theorem meaning_of_wide {c : RawConstant} (h : c.isWide = true) : c.meaning = .other := by
  cases c with
  | long _ | double _ => rfl
  | _ => cases h

theorem isUnnamed_of_wide {c : RawConstant} (h : c.isWide = true) : c.isUnnamed = true := by
  cases c with
  | long _ | double _ => rfl
  | _ => cases h

end RawConstant

/-- How many slots constants take. -/
def slotCount (cs : List RawConstant) : Nat := (cs.flatMap RawConstant.slots).length

/-- The constant starts at this slot: the slots before it are slot 0 and those of the constants before
it. -/
def StartsAt (cs : List RawConstant) (c : RawConstant) (i : Nat) : Prop :=
  ∃ front back, cs = front ++ c :: back ∧ i = slotCount front + 1

/-! ## Reading constants -/

namespace RawConstant

/-- A constant of one slot is read alike in every slot. -/
theorem reads {c : RawConstant} (h : c.isWide = false) (index : UInt16) (last : Bool) :
    Reads (readConstant index last) c.bytes (.narrow c.meaning) := by
  cases c with
  | long _ | double _ => cases h
  | text bytes measured =>
      have htake := reads_take bytes
      rw [← toNat_count measured] at htake
      exact (reads_byte 1).bind ((reads_word16 _).bind (htake.map (.pure _)))
  | integer bits => exact (reads_byte 3).bind ((reads_skip (bytes32 bits)).map (.pure _))
  | float bits => exact (reads_byte 4).bind ((reads_skip (bytes32 bits)).map (.pure _))
  | classAt name => exact (reads_byte 7).bind ((reads_word16 name).map (.pure _))
  | stringAt text => exact (reads_byte 8).bind ((reads_skip (bytes16 text)).map (.pure _))
  | member kind owner sig =>
      have hparts : Reads (readConstant.member kind) (bytes16 owner ++ bytes16 sig)
          (.narrow (.member kind owner sig)) :=
        (reads_word16 owner).bind ((reads_word16 sig).map (.pure _))
      cases kind <;> exact (reads_byte _).bind hparts
  | signature name descriptor =>
      exact (reads_byte 12).bind ((reads_word16 name).bind ((reads_word16 descriptor).map (.pure _)))
  | methodHandle kind target =>
      exact (reads_byte 15).bind ((reads_skip (kind :: bytes16 target)).map (.pure _))
  | methodType descriptor =>
      exact (reads_byte 16).bind ((reads_skip (bytes16 descriptor)).map (.pure _))
  | dynamic bootstrap sig =>
      exact (reads_byte 17).bind ((reads_skip (bytes16 bootstrap ++ bytes16 sig)).map (.pure _))
  | invokeDynamic bootstrap sig =>
      exact (reads_byte 18).bind ((reads_skip (bytes16 bootstrap ++ bytes16 sig)).map (.pure _))
  | moduleAt name => exact (reads_byte 19).bind ((reads_skip (bytes16 name)).map (.pure _))
  | packageAt name => exact (reads_byte 20).bind ((reads_skip (bytes16 name)).map (.pure _))

/-- A wide constant is read if it is not in the last slot. -/
theorem reads_wide {c : RawConstant} (h : c.isWide = true) (index : UInt16) :
    Reads (readConstant index false) c.bytes .wide := by
  cases c with
  | long bits => exact (reads_byte 5).bind ((reads_skip (bytes64 bits)).map (.pure _))
  | double bits => exact (reads_byte 6).bind ((reads_skip (bytes64 bits)).map (.pure _))
  | _ => cases h

/-- In the last slot it is refused by its tag alone. -/
theorem refused_of_wide {c : RawConstant} (h : c.isWide = true) (index : UInt16) (rest : List UInt8) :
    readConstant index true (c.tag :: rest) = .error (.badIndex index) := by
  cases c with
  | long _ | double _ => rfl
  | _ => cases h

theorem fills (c : RawConstant) : Fills c.bytes c.slots := by
  unfold slots
  cases hwide : c.isWide with
  | true => exact .wide (reads_wide hwide)
  | false => exact .narrow (reads hwide)

end RawConstant

theorem fills_constants (cs : List RawConstant) :
    Fills (cs.flatMap RawConstant.bytes) (cs.flatMap RawConstant.slots) := by
  induction cs with
  | nil => exact .nil
  | cons c cs ih => exact c.fills.append ih

/-- The tags of constants. -/
def tags : List UInt8 := [1, 3, 4, 5, 6, 7, 8, 9, 10, 11, 12, 15, 16, 17, 18, 19, 20]

theorem tag_mem_tags (c : RawConstant) : c.tag ∈ tags := by
  cases c with
  | member kind _ _ => cases kind <;> simp [RawConstant.tag, Writing.memberTag, tags]
  | _ => simp [RawConstant.tag, tags]

theorem exists_tag {tag : UInt8} (h : tag ∈ tags) : ∃ c : RawConstant, c.tag = tag := by
  have hall : tags = ([.text [] (Nat.zero_le _), .integer 0, .float 0, .long 0, .double 0, .classAt 0,
      .stringAt 0, .member .field 0 0, .member .method 0 0, .member .interfaceMethod 0 0, .signature 0 0,
      .methodHandle 0 0, .methodType 0, .dynamic 0 0, .invokeDynamic 0 0, .moduleAt 0,
      .packageAt 0] : List RawConstant).map RawConstant.tag := rfl
  rw [hall] at h
  obtain ⟨c, -, hc⟩ := List.mem_map.mp h
  exact ⟨c, hc⟩

/-- A tag that no constant has is refused wherever it stands. -/
theorem refused_of_unknown {tag : UInt8} (h : ∀ c : RawConstant, c.tag ≠ tag) (index : UInt16) (last : Bool)
    (rest : List UInt8) :
    readConstant index last (tag :: rest) = .error (.unknownTag tag index) := by
  have hunknown : tag ∉ tags := fun hmem => (exists_tag hmem).elim h
  unfold readConstant
  simp only [bind, StateT.bind, Reader.byte, Except.bind]
  split
  case h_18 => rfl
  all_goals exact absurd (by decide) hunknown

/-! ## Constants under their numbers -/

/-- No look-up finds anything in the slot. -/
structure Pool.Rejects (pool : Pool) (i : UInt16) : Prop where
  text : pool.text i = .error (.badIndex i)
  className : pool.className i = .error (.badIndex i)
  signature : pool.signature i = .error (.badIndex i)

theorem Pool.rejects_of_other {pool : Pool} {i : UInt16} (h : pool[i.toNat]? = some .other) :
    pool.Rejects i := by
  refine ⟨?_, ?_, ?_⟩
  · rw [Pool.text, h]
  · rw [Pool.className, h]
  · rw [Pool.signature, h]

theorem Pool.rejects_of_member {pool : Pool} {i : UInt16} {kind : MemberKind} {owner sig : UInt16}
    (h : pool[i.toNat]? = some (.member kind owner sig)) : pool.Rejects i := by
  refine ⟨?_, ?_, ?_⟩
  · rw [Pool.text, h]
  · rw [Pool.className, h]
  · rw [Pool.signature, h]

/-- The pool has each constant under its number, and under no number anything else. -/
structure Pool.Holds (pool : Pool) (cs : List RawConstant) : Prop where
  size : pool.size = slotCount cs + 1
  /-- A number denotes the constant that starts there. -/
  denotes : ∀ c (i : UInt16), StartsAt cs c i.toNat → pool[i.toNat]? = some c.meaning
  /-- What a look-up finds is a constant of its kind that starts there. -/
  text_starts : ∀ i value, pool.text i = .ok value →
    ∃ bytes measured, StartsAt cs (.text bytes measured) i.toNat ∧ value = Text.decodeLossy bytes
  class_starts : ∀ i name, pool.className i = .ok name →
    ∃ j, StartsAt cs (.classAt j) i.toNat ∧ pool.text j = .ok name
  signature_starts : ∀ i name descriptor, pool.signature i = .ok (name, descriptor) →
    ∃ j k, StartsAt cs (.signature j k) i.toNat ∧ pool.text j = .ok name ∧ pool.text k = .ok descriptor
  /-- Slot 0 has nothing to be found. -/
  zero : pool.Rejects 0
  /-- Neither has any of the two slots of a wide constant. -/
  wide : ∀ c (i : UInt16), StartsAt cs c i.toNat → c.isWide = true →
    pool.Rejects i ∧ (i + 1).toNat = i.toNat + 1 ∧ pool.Rejects (i + 1)
  /-- Nor has the slot of a constant which is no text, class or signature. -/
  unnamed : ∀ c (i : UInt16), StartsAt cs c i.toNat → c.isUnnamed = true → pool.Rejects i

section PoolOf

variable {cs : List RawConstant} {c : RawConstant} {pool : Pool} {i : UInt16}

theorem rejects_of_unnamed (hc : c.isUnnamed = true) (h : pool[i.toNat]? = some c.meaning) :
    pool.Rejects i := by
  cases c with
  | text _ _ | classAt _ | signature _ _ => cases hc
  | member _ _ _ => exact Pool.rejects_of_member h
  | _ => exact Pool.rejects_of_other h

theorem size_poolOf (cs : List RawConstant) :
    (poolOf (cs.map RawConstant.slots)).size = slotCount cs + 1 := by
  unfold poolOf slotCount
  rw [List.size_toArray, List.length_cons, List.flatMap_def]

theorem getElem?_poolOf (k : Nat) :
    (poolOf (cs.map RawConstant.slots))[k]? = (.other :: cs.flatMap RawConstant.slots)[k]? := by
  rw [poolOf, List.getElem?_toArray, List.flatMap_def]

/-- What stands in the slots of a constant. -/
theorem StartsAt.getElem?_slots {k : Nat} (h : StartsAt cs c k) {j : Nat} (hj : j < c.slots.length) :
    (poolOf (cs.map RawConstant.slots))[k + j]? = c.slots[j]? := by
  obtain ⟨front, back, rfl, rfl⟩ := h
  have hbefore : (Constant.other :: front.flatMap RawConstant.slots).length = slotCount front + 1 := rfl
  rw [getElem?_poolOf, List.flatMap_append, List.flatMap_cons, ← List.cons_append,
    List.getElem?_append_right (by omega), List.getElem?_append_left (by omega)]
  congr 1
  omega

theorem StartsAt.getElem?_eq (h : StartsAt cs c i.toNat) :
    (poolOf (cs.map RawConstant.slots))[i.toNat]? = some c.meaning := by
  cases hwide : c.isWide with
  | true =>
      have hslots : c.slots = [.other, .other] := if_pos hwide
      rw [← Nat.add_zero i.toNat, h.getElem?_slots (by rw [hslots]; decide), hslots,
        RawConstant.meaning_of_wide hwide]
      rfl
  | false =>
      have hslots : c.slots = [c.meaning] := if_neg (by rw [hwide]; decide)
      rw [← Nat.add_zero i.toNat, h.getElem?_slots (by rw [hslots]; exact Nat.one_pos), hslots]
      rfl

/-- What means something and stands in a slot is the meaning of a constant that starts there. -/
theorem exists_startsAt {k : Nat} {x : Constant}
    (hx : (poolOf (cs.map RawConstant.slots))[k]? = some x) (hother : x ≠ .other) : ∃ c, StartsAt cs c k ∧ x = c.meaning := by
  rw [getElem?_poolOf] at hx
  cases k with
  | zero => exact absurd (Option.some.inj hx).symm hother
  | succ k =>
      rw [List.getElem?_cons_succ] at hx
      induction cs generalizing k with
      | nil => cases hx
      | cons d cs ih =>
          rw [List.flatMap_cons] at hx
          by_cases hk : k < d.slots.length
          · -- it stands in a slot of the first constant, which is then not a wide one
            rw [List.getElem?_append_left hk] at hx
            have hmem := List.mem_of_getElem? hx
            unfold RawConstant.slots at hmem hk
            cases hwide : d.isWide with
            | true =>
                rw [if_pos hwide] at hmem
                exact absurd (by simpa using hmem) hother
            | false =>
                rw [hwide] at hmem hk
                obtain rfl : k = 0 := by simpa using hk
                exact ⟨d, ⟨[], cs, rfl, rfl⟩, by simpa using hmem⟩
          · rw [List.getElem?_append_right (Nat.le_of_not_lt hk)] at hx
            obtain ⟨c, ⟨front, back, rfl, hstart⟩, hc⟩ := ih _ hx
            refine ⟨c, ⟨d :: front, back, rfl, ?_⟩, hc⟩
            simp only [slotCount, List.flatMap_cons, List.length_append] at hstart ⊢
            omega

theorem StartsAt.add_length_le {k : Nat} (h : StartsAt cs c k) : k + c.slots.length ≤ slotCount cs + 1 := by
  obtain ⟨front, back, rfl, rfl⟩ := h
  simp only [slotCount, List.flatMap_append, List.flatMap_cons, List.length_append]
  omega

/-- The two slots of a wide constant are numbered one after the other. -/
theorem StartsAt.rejects_wide (hcount : slotCount cs < 65535) (h : StartsAt cs c i.toNat)
    (hwide : c.isWide = true) : (poolOf (cs.map RawConstant.slots)).Rejects i ∧
      (i + 1).toNat = i.toNat + 1 ∧ (poolOf (cs.map RawConstant.slots)).Rejects (i + 1) := by
  have hslots : c.slots = [.other, .other] := if_pos hwide
  have hlast := h.add_length_le
  rw [hslots] at hlast
  have hnext : (i + 1).toNat = i.toNat + 1 := by
    have hsum := UInt16.toNat_add i 1
    have hone : (1 : UInt16).toNat = 1 := rfl
    simp only [List.length_cons, List.length_nil] at hlast
    omega
  refine ⟨rejects_of_unnamed (RawConstant.isUnnamed_of_wide hwide) h.getElem?_eq, hnext, ?_⟩
  apply Pool.rejects_of_other
  rw [hnext, h.getElem?_slots (by rw [hslots]; decide), hslots]
  rfl

theorem holds_poolOf (hcount : slotCount cs < 65535) : (poolOf (cs.map RawConstant.slots)).Holds cs where
  size := size_poolOf cs
  denotes c i h := h.getElem?_eq
  text_starts i value htext := by
    obtain ⟨c, hstart, hc⟩ := exists_startsAt (Pool.text_eq_ok.mp htext) nofun
    cases c with
    | text bytes measured => exact ⟨bytes, measured, hstart, Constant.text.inj hc⟩
    | _ => cases hc
  class_starts i name hname := by
    obtain ⟨j, hslot, htext⟩ := Pool.className_eq_ok.mp hname
    obtain ⟨c, hstart, hc⟩ := exists_startsAt hslot nofun
    cases c with
    | classAt j' =>
        obtain rfl := Constant.classAt.inj hc
        exact ⟨j, hstart, htext⟩
    | _ => cases hc
  signature_starts i name descriptor hparts := by
    obtain ⟨j, k, hslot, hname, hdescriptor⟩ := Pool.signature_eq_ok.mp hparts
    obtain ⟨c, hstart, hc⟩ := exists_startsAt hslot nofun
    cases c with
    | signature j' k' =>
        obtain ⟨rfl, rfl⟩ := Constant.signature.inj hc
        exact ⟨j, k, hstart, hname, hdescriptor⟩
    | _ => cases hc
  zero := Pool.rejects_of_other (getElem?_poolOf 0)
  wide c i h hwide := h.rejects_wide hcount hwide
  unnamed c i h hunnamed := rejects_of_unnamed hunnamed h.getElem?_eq

end PoolOf

/-! ## Indexes of sixteen bits -/

/-- The next index; nothing if sixteen bits are not enough for it. -/
def next? (index : UInt16) : Option UInt16 :=
  if index.toNat + 1 < UInt16.size then some (index + 1) else none

theorem toNat_of_next? {index next : UInt16} (h : next? index = some next) :
    next.toNat = index.toNat + 1 := by
  unfold next? at h
  split at h
  · next hlt =>
      obtain rfl := Option.some.inj h
      rw [UInt16.toNat_add]
      exact Nat.mod_eq_of_lt hlt
  · cases h

theorem exists_next? (index : UInt16) (h : index.toNat + 1 < 65536) :
    ∃ next, next? index = some next ∧ next.toNat = index.toNat + 1 := by
  have hnext : next? index = some (index + 1) := if_pos h
  exact ⟨index + 1, hnext, toNat_of_next? hnext⟩

/-- Fills the slots of a pool from `index` up to `count` by an index of sixteen bits. Gives nothing if that
is not enough for it. -/
def readFrom (count index : UInt16) (pool : Pool) : Reader (Option Pool) :=
  if _hbelow : index < count then
    match _hnext : next? index with
    | none => return none
    | some next => do
      match ← readConstant index (count ≤ next) with
      | .narrow c => readFrom count next (pool.push c)
      | .wide =>
        match _hlast : next? next with
        | none => return none
        | some after => readFrom count after ((pool.push .other).push .other)
  else return some pool
termination_by count.toNat - index.toNat
decreasing_by
  · have hnext := toNat_of_next? _hnext
    have hlt := UInt16.lt_iff_toNat_lt.mp _hbelow
    omega
  · have hnext := toNat_of_next? _hnext
    have hlast := toNat_of_next? _hlast
    have hlt := UInt16.lt_iff_toNat_lt.mp _hbelow
    omega

/-- A pool with its declared count, by an index of sixteen bits. -/
def readCounted : Reader (Option Pool) := do
  let count ← Reader.word16
  readFrom count 1 #[.other]

/-- What is read in the last slot takes one slot. -/
theorem gives_readConstant_last (index : UInt16) :
    Gives (readConstant index true) fun reading => ∃ c, reading = .narrow c := by
  have hpassed : ∀ n, Gives (do Reader.skip n; return .narrow .other : Reader Reading)
      fun reading => ∃ c, reading = .narrow c :=
    fun n => (Gives.any _).bind fun _ _ => .pure ⟨_, rfl⟩
  have hmember : ∀ kind, Gives (readConstant.member kind) fun reading => ∃ c, reading = .narrow c :=
    fun kind => (Gives.any _).bind fun _ _ => (Gives.any _).bind fun _ _ => .pure ⟨_, rfl⟩
  refine (Gives.any _).bind fun tag _ => ?_
  split
  case h_1 => exact (Gives.any _).bind fun _ _ => (Gives.any _).bind fun _ _ => .pure ⟨_, rfl⟩
  case h_6 | h_7 => exact .throw _
  case h_8 => exact (Gives.any _).bind fun _ _ => .pure ⟨_, rfl⟩
  case h_13 | h_14 | h_15 => exact hmember _
  case h_16 => exact (Gives.any _).bind fun _ _ => (Gives.any _).bind fun _ _ => .pure ⟨_, rfl⟩
  case h_18 => exact .throw _
  all_goals exact hpassed _

/-- After a reader two ways to go on are the same if they are on what it gives. -/
theorem Gives.bind_congr {α β : Type} {m : Reader α} {P : α → Prop} {f g : α → Reader β} (hm : Gives m P)
    (h : ∀ x, P x → f x = g x) : m >>= f = m >>= g := by
  funext bytes
  show (m bytes >>= fun r => f r.1 r.2) = (m bytes >>= fun r => g r.1 r.2)
  cases hrun : m bytes with
  | error d => rfl
  | ok r =>
      show f r.1 r.2 = g r.1 r.2
      rw [h r.1 (hm bytes r.1 r.2 hrun)]

theorem readFrom_of_le {count index : UInt16} (h : count.toNat ≤ index.toNat) (pool : Pool) :
    readFrom count index pool = return some pool := by
  have hnot : ¬ index < count := fun hlt => absurd (UInt16.lt_iff_toNat_lt.mp hlt) (by omega)
  rw [readFrom, dif_neg hnot]

/-- One constant more. -/
theorem readFrom_of_lt {count index next : UInt16} (h : index.toNat < count.toNat)
    (hnext : next? index = some next) (pool : Pool) :
    readFrom count index pool = (readConstant index (count ≤ next) >>= fun reading =>
      match reading with
      | .narrow c => readFrom count next (pool.push c)
      | .wide =>
        match next? next with
        | none => return none
        | some after => readFrom count after ((pool.push .other).push .other)) := by
  rw [readFrom, dif_pos (UInt16.lt_iff_toNat_lt.mpr h)]
  split
  · next hnone =>
      rw [hnone] at hnext
      cases hnext
  · next next' hnext' =>
      obtain rfl := Option.some.inj (hnext.symm.trans hnext')
      congr 1
      funext reading
      cases reading with
      | narrow c => rfl
      | wide =>
          simp only
          split
          · next hnone => rw [hnone]
          · next hsome => rw [hsome]

/-- Sixteen bits are always enough: the same slots are filled. -/
theorem readFrom_eq (n : Nat) (pool : Pool) {count index : UInt16} (hindex : index.toNat = pool.size)
    (hcount : index.toNat + n = count.toNat) :
    readFrom count index pool = some <$> readSlots n pool := by
  have hmax := count.toNat_lt
  induction n, pool using readSlots.induct generalizing index with
  | case1 pool =>
      rw [readFrom_of_le (by omega), readSlots, map_pure]
  | case2 pool =>
      obtain ⟨next, hnext, hsum⟩ := exists_next? index (by omega)
      have hslot : UInt16.ofNat pool.size = index := by rw [← hindex, UInt16.ofNat_toNat]
      have hlast : decide (count ≤ next) = true := by
        rw [decide_eq_true_iff, UInt16.le_iff_toNat_le]
        omega
      rw [readFrom_of_lt (by omega) hnext, hlast, readSlots, map_bind, hslot]
      apply (gives_readConstant_last index).bind_congr
      rintro _ ⟨c, rfl⟩
      simp only [map_pure]
      exact readFrom_of_le (by omega) _
  | case3 n pool ihnarrow ihwide =>
      obtain ⟨next, hnext, hsum⟩ := exists_next? index (by omega)
      obtain ⟨after, hafter, hsum'⟩ := exists_next? next (by omega)
      have hslot : UInt16.ofNat pool.size = index := by rw [← hindex, UInt16.ofNat_toNat]
      have hmore : decide (count ≤ next) = false := by
        rw [decide_eq_false_iff_not, UInt16.le_iff_toNat_le]
        omega
      rw [readFrom_of_lt (by omega) hnext, hmore, readSlots, map_bind, hslot]
      congr 1
      funext reading
      cases reading with
      | narrow c => exact ihnarrow c (by rw [Array.size_push]; omega) (by omega)
      | wide =>
          simp only [hafter]
          exact ihwide (by rw [Array.size_push, Array.size_push]; omega) (by omega)

theorem readCounted_eq : readCounted = some <$> readPool := by
  unfold readCounted readPool
  rw [map_bind]
  congr 1
  funext count
  by_cases hcount : 1 ≤ count.toNat
  · exact readFrom_eq _ _ rfl (Nat.add_sub_cancel' hcount)
  · -- a count of 0 is taken as that of slot 0 alone
    have hzero : count.toNat - 1 = 0 := by omega
    rw [readFrom_of_le (by simp; omega), hzero, readSlots, map_pure]

/-! ## What is made of constants -/

section Constants

variable {cs : List RawConstant} {count : UInt16}

/-- After some constants the reader goes on with the next slot, and the slots that are left. -/
theorem readPool_constants {n : Nat} (h : slotCount cs + n + 1 = count.toNat) (rest : List UInt8) :
    readPool (bytes16 count ++ (cs.flatMap RawConstant.bytes ++ rest)) =
      readSlots n (poolOf (cs.map RawConstant.slots)) rest := by
  have hslots : count.toNat - 1 = slotCount cs + n := by omega
  have hpool : #[.other] ++ (cs.flatMap RawConstant.slots).toArray =
      poolOf (cs.map RawConstant.slots) := by simp [poolOf, List.flatMap_def]
  show (Reader.word16 (bytes16 count ++ _) >>= fun r => readSlots (r.1.toNat - 1) #[.other] r.2) = _
  rw [reads_word16 count, ← hpool, ← fills_constants cs n]
  show readSlots (count.toNat - 1) #[.other] _ = _
  rw [hslots]
  rfl

/-- What is refused in the next slot, by its tag, is refused in the pool. -/
theorem readSlots_refused {n : Nat} {pool : Pool} {bytes : List UInt8} {d : Defect}
    (h : readConstant (UInt16.ofNat pool.size) (n = 0) bytes = .error d) :
    readSlots (n + 1) pool bytes = .error d := by
  cases n with
  | zero =>
      have hlast : readConstant (UInt16.ofNat pool.size) true bytes = .error d := h
      show (readConstant _ true bytes >>= fun r => _) = _
      rw [hlast]
      rfl
  | succ n =>
      have hmore : readConstant (UInt16.ofNat pool.size) false bytes = .error d := h
      show (readConstant _ false bytes >>= fun r => _) = _
      rw [hmore]
      rfl

end Constants

/-- Constants that take as many slots as are declared are read as they are, whatever follows them, and the
pool has each under its number. A wide constant in the last slot is refused by its tag, and so is a tag that
no constant has in any slot. Sixteen bits are always enough for the index. -/
theorem readPool_numbers :
    (∀ (cs : List RawConstant) (count : UInt16), slotCount cs + 1 = count.toNat →
      ∃ pool : Pool, pool.Holds cs ∧ pool.size = count.toNat ∧ ∀ rest,
        readPool (bytes16 count ++ (cs.flatMap RawConstant.bytes ++ rest)) = .ok (pool, rest)) ∧
    (∀ (cs : List RawConstant) (c : RawConstant) (count : UInt16), c.isWide = true →
      slotCount cs + 2 = count.toNat → ∀ rest,
        readPool (bytes16 count ++ (cs.flatMap RawConstant.bytes ++ c.tag :: rest)) =
          .error (.badIndex (count - 1))) ∧
    (∀ (cs : List RawConstant) (tag : UInt8) (count index : UInt16), (∀ c : RawConstant, c.tag ≠ tag) →
      slotCount cs + 1 = index.toNat → index < count → ∀ rest,
        readPool (bytes16 count ++ (cs.flatMap RawConstant.bytes ++ tag :: rest)) =
          .error (.unknownTag tag index)) ∧
    readCounted = some <$> readPool := by
  refine ⟨?_, ?_, ?_, readCounted_eq⟩
  · intro cs count hcount
    have hmax := count.toNat_lt
    refine ⟨_, holds_poolOf (by omega), (size_poolOf cs).trans hcount, fun rest => ?_⟩
    exact readPool_constants (n := 0) hcount rest
  · intro cs c count hwide hcount rest
    have hslot : UInt16.ofNat (poolOf (cs.map RawConstant.slots)).size = count - 1 := by
      have hone : (1 : UInt16) ≤ count := UInt16.le_iff_toNat_le.mpr (by simp; omega)
      have hpred := UInt16.toNat_sub_of_le count 1 hone
      have hmax := count.toNat_lt
      rw [size_poolOf, ← UInt16.toNat_inj, toNat_count (by omega), hpred]
      simp
      omega
    rw [readPool_constants (n := 1) hcount, ← hslot]
    exact readSlots_refused (c.refused_of_wide hwide _ rest)
  · intro cs tag count index hunknown hindex hbelow rest
    have hlt := UInt16.lt_iff_toNat_lt.mp hbelow
    obtain ⟨n, hn⟩ := Nat.exists_eq_add_of_lt hlt
    have hslot : UInt16.ofNat (poolOf (cs.map RawConstant.slots)).size = index := by
      rw [size_poolOf, hindex, UInt16.ofNat_toNat]
    rw [readPool_constants (n := n + 1) (by omega), ← hslot]
    exact readSlots_refused (refused_of_unknown hunknown _ _ rest)

/-- Two wide constants among narrow ones. -/
def mixedConstants : List RawConstant :=
  [.text [0x41] (by decide), .long 42, .classAt 1, .double 7, .member .method 4 1]

/-- The mixed constants with bytes behind them; the same with a wide constant in one slot more; and with a
tag that no constant has, where slots would be left. -/
theorem readPool_numbers_mixed :
    (∃ pool : Pool, readPool (bytes16 8 ++ (mixedConstants.flatMap RawConstant.bytes ++ [0xCA])) =
        .ok (pool, [0xCA]) ∧ pool.className 4 = .ok "A" ∧ pool.Rejects 3 ∧ pool.Rejects 7) ∧
      readPool (bytes16 9 ++ (mixedConstants.flatMap RawConstant.bytes ++ [5])) = .error (.badIndex 8) ∧
      readPool (bytes16 10 ++ (mixedConstants.flatMap RawConstant.bytes ++ [2])) =
        .error (.unknownTag 2 8) := by
  obtain ⟨hread, hwide, hunknown, -⟩ := readPool_numbers
  refine ⟨?_, ?_, ?_⟩
  · obtain ⟨pool, hholds, -, hpool⟩ := hread mixedConstants 8 rfl
    have hclass := hholds.denotes (.classAt 1) 4
      ⟨[.text [0x41] (by decide), .long 42], [.double 7, .member .method 4 1], rfl, rfl⟩
    have htext := hholds.denotes (.text [0x41] (by decide)) 1 ⟨[], _, rfl, rfl⟩
    refine ⟨pool, hpool [0xCA], ?_, ?_, ?_⟩
    · exact Pool.className_eq_ok.mpr ⟨1, hclass, Pool.text_eq_ok.mpr htext⟩
    · exact (hholds.wide (.long 42) 2 ⟨[.text [0x41] (by decide)], _, rfl, rfl⟩ rfl).2.2
    · exact hholds.unnamed (.member .method 4 1) 7
        ⟨[.text [0x41] (by decide), .long 42, .classAt 1, .double 7], [], rfl, rfl⟩ rfl
  · exact hwide mixedConstants (.long 0) 9 rfl rfl []
  · refine hunknown mixedConstants 2 10 8 ?_ rfl (by decide) []
    intro c hc
    exact absurd (hc ▸ tag_mem_tags c) (by decide)

end Linkage.ClassFile
