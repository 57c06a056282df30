import Linkage.Proofs.ClassFile.Entering
import Linkage.Proofs.ClassFile.Truncation

/-!
# Bytes that are out of step

Lengths and counts are written in two bytes. Where a draft goes beyond them, the reader comes out of step with
what was written and goes on in the middle of something else.

* **`Fails`** — bytes that a reader refuses, whatever follows them;
* **`Laid.crowdedFields`**, **`Laid.crowdedMethods`**, **`Laid.crowdedInterfaces`** — what is left over of too
  many items is read as what comes next in a class;
* **`leads_tooLong`** — and so is what is left over of a text.
-/

namespace Linkage.ClassFile

variable {α β : Type}

/-! ## Refusals -/

/-- The reader refuses these bytes, whatever follows them. -/
def Fails (m : Reader α) (bytes : List UInt8) (d : Defect) : Prop := ∀ rest, m (bytes ++ rest) = .error d

section Fails

variable {m next : Reader α} {f : α → Reader β} {bytes bytes' : List UInt8} {x : α} {d : Defect}

theorem Fails.bind (h : Fails m bytes d) (f : α → Reader β) : Fails (m >>= f) bytes d := by
  intro rest
  show (m (bytes ++ rest) >>= fun r => f r.1 r.2) = _
  rw [h]
  rfl

theorem Reads.fails (hm : Reads m bytes x) (hf : Fails (f x) bytes' d) :
    Fails (m >>= f) (bytes ++ bytes') d := by
  intro rest
  rw [List.append_assoc, hm.leadsTo]
  exact hf rest

theorem Leads.fails (hm : Leads m bytes next) (hnext : Fails next bytes' d) : Fails m (bytes ++ bytes') d := by
  intro rest
  rw [List.append_assoc, hm]
  exact hnext rest

theorem fails_lift {e : Except Defect α} (h : e = .error d) : Fails (liftM e : Reader α) [] d := by
  intro rest
  rw [h]
  rfl

/-- Items of which the first is refused. -/
theorem Fails.times (h : Fails m bytes d) {n : Nat} (hn : 0 < n) : Fails (Reader.times m n) bytes d := by
  obtain ⟨n, rfl⟩ := Nat.exists_eq_succ_of_ne_zero (Nat.ne_of_gt hn)
  exact h.bind _

theorem Fails.read (h : Fails readDefinition bytes d) (rest : List UInt8) :
    read (bytes ++ rest) = .error d := by
  unfold ClassFile.read
  rw [h]
  rfl

end Fails

section Members

variable {pool : Pool} {count name descriptor : UInt16} {d : Defect} {value : String}

theorem toNat_pos_of_ne_zero {w : UInt16} (h : w ≠ 0) : 0 < w.toNat :=
  Nat.pos_of_ne_zero fun hzero => h (UInt16.toNat_inj.mp hzero)

/-- Members of which the first has no name. -/
theorem fails_nameless (access : UInt16) (hcount : count ≠ 0) (hname : pool.text name = .error d) :
    Fails (readMembers pool) (bytes16 count ++ (bytes16 access ++ bytes16 name)) d := by
  apply (reads_word16 count).fails
  apply Fails.times _ (toNat_pos_of_ne_zero hcount)
  apply (reads_word16 access).fails
  rw [← List.append_nil (bytes16 name)]
  exact (reads_word16 name).fails ((fails_lift hname).bind _)

/-- Members of which the first has no descriptor. -/
theorem fails_undescribed (access : UInt16) (hcount : count ≠ 0) (hname : pool.text name = .ok value)
    (hdescriptor : pool.text descriptor = .error d) :
    Fails (readMembers pool) (bytes16 count ++ (bytes16 access ++ (bytes16 name ++ bytes16 descriptor)))
      d := by
  apply (reads_word16 count).fails
  apply Fails.times _ (toNat_pos_of_ne_zero hcount)
  apply (reads_word16 access).fails
  apply (reads_word16 name).fails
  rw [← List.nil_append (bytes16 descriptor)]
  apply (Reads.lift hname).fails
  rw [← List.append_nil (bytes16 descriptor)]
  exact (reads_word16 descriptor).fails ((fails_lift hdescriptor).bind _)

theorem Pool.text_of_className {pool : Pool} {index : UInt16} {name : String}
    (h : pool.className index = .ok name) : pool.text index = .error (.badIndex index) := by
  obtain ⟨i, hslot, -⟩ := Pool.className_eq_ok.mp h
  unfold Pool.text
  rw [hslot]

/-- No class stands in slot 0. -/
theorem ne_zero_of_className {spelled : List (List Constant)} {index : UInt16} {name : String}
    (h : (poolOf spelled).className index = .ok name) : index ≠ 0 := by
  rintro rfl
  obtain ⟨i, hslot, -⟩ := Pool.className_eq_ok.mp h
  simp [poolOf] at hslot

theorem text_zero (spelled : List (List Constant)) : (poolOf spelled).text 0 = .error (.badIndex 0) := rfl

end Members

/-! ## Too many of something -/

/-- What is left over of items of which there are more than their count says. -/
def leftBytes (encode : α → List UInt8) (xs : List α) : List UInt8 :=
  (xs.drop (xs.length % 65536)).flatMap encode

theorem countedBytes_eq (encode : α → List UInt8) (xs : List α) :
    countedBytes encode xs = (bytes16 (UInt16.ofNat xs.length)
      ++ (xs.take (xs.length % 65536)).flatMap encode) ++ leftBytes encode xs := by
  unfold countedBytes leftBytes
  rw [List.append_assoc, ← List.flatMap_append, List.take_append_drop]

theorem exists_left {R : α → β → Prop} {xs : List α} {ys : List β} (h : List.Forall₂ R xs ys) {n : Nat} {x : α}
    (hx : xs[n]? = some x) : ∃ y more, ys.drop n = y :: more ∧ R x y := by
  obtain ⟨hn, rfl⟩ := List.getElem?_eq_some_iff.mp hx
  have hdrop := List.forall₂_drop n h
  rw [List.drop_eq_getElem_cons hn] at hdrop
  obtain ⟨y, more, hxy, -, heq⟩ := List.forall₂_cons_left_iff.mp hdrop
  exact ⟨y, more, heq, hxy⟩

namespace Laid

variable {pool : Pool} {d : Draft} {l : Layout} {c : ClassDefinition}

theorem reads_lowMembers {ms : List Member} {ps : List PlacedMember} {mark : UInt16}
    (h : List.Forall₂ (Placed pool) ms ps) (hmark : pool.text mark = .ok deprecatedAttribute) :
    Reads (readMembers pool) (bytes16 (UInt16.ofNat ps.length)
      ++ (ps.take (ps.length % 65536)).flatMap (PlacedMember.bytes mark)) (ms.take (ms.length % 65536)) := by
  have hitems := (h.imp fun _ _ hplaced => hplaced.reads hmark).flip
  rw [h.length_eq]
  exact Reads.countedLow hitems

/-- Of too many fields those beyond the count are read as methods and what comes after them. -/
theorem crowdedFields (h : Laid pool d l) :
    Leads (readFields pool c) (bytes16 (UInt16.ofNat l.fields.length)
        ++ (l.fields.take (l.fields.length % 65536)).flatMap (PlacedMember.bytes l.mark))
      (readMethods pool { c with fields := d.fields.take (d.fields.length % 65536) }) :=
  (reads_lowMembers h.fields h.mark).leadsTo

/-- Of too many methods those beyond the count are read as attributes. -/
theorem crowdedMethods (h : Laid pool d l) :
    Leads (readMethods pool c) (bytes16 (UInt16.ofNat l.methods.length)
        ++ (l.methods.take (l.methods.length % 65536)).flatMap (PlacedMember.bytes l.mark))
      (readMarks pool { c with methods := d.methods.take (d.methods.length % 65536) }) :=
  (reads_lowMembers h.methods h.mark).leadsTo

/-- Of too many interfaces those beyond the count are read as fields, and a class is no name of a field. -/
theorem crowdedInterfaces {spelled : List (List Constant)} (h : Laid (poolOf spelled) d l)
    (hmany : 65535 < d.interfaces.length) :
    ∃ bytes rest slot, countedBytes bytes16 l.interfaces = bytes ++ rest ∧
      Fails (readInterfaces (poolOf spelled) c) bytes (.badIndex slot) := by
  have hlength := h.interfaces.length_eq
  have hfront : Leads (readInterfaces (poolOf spelled) c) (bytes16 (UInt16.ofNat l.interfaces.length)
      ++ (l.interfaces.take (l.interfaces.length % 65536)).flatMap bytes16)
      (readFields (poolOf spelled)
        { c with interfaces := d.interfaces.take (l.interfaces.length % 65536) }) := by
    unfold readInterfaces
    rw [← bind_assoc]
    exact (Reads.countedLow (reads_interfaces h)).leadsTo
  have hslots : ∀ index ∈ l.interfaces, ∃ name, (poolOf spelled).className index = .ok name := by
    intro index hindex
    obtain ⟨name, -, hname⟩ := exists_of_mem_right h.interfaces hindex
    exact ⟨name, hname⟩
  -- three of those left over are taken for a count, an access and a name
  have hleft : 3 ≤ (l.interfaces.drop (l.interfaces.length % 65536)).length := by
    rw [List.length_drop]
    omega
  match hdrop : l.interfaces.drop (l.interfaces.length % 65536), hleft with
  | count :: access :: name :: more, _ =>
      have hmem : ∀ index ∈ [count, access, name], index ∈ l.interfaces := by
        intro index hindex
        refine List.mem_of_mem_drop (i := l.interfaces.length % 65536) ?_
        rw [hdrop]
        exact List.mem_append_left more hindex
      obtain ⟨_, hcount⟩ := hslots count (hmem count (by simp))
      obtain ⟨_, hname⟩ := hslots name (hmem name (by simp))
      have hfails := fails_nameless access (ne_zero_of_className hcount)
        (Pool.text_of_className hname)
      refine ⟨_, more.flatMap bytes16, name, ?_, hfront.fails (hfails.bind _)⟩
      rw [countedBytes_eq, leftBytes, hdrop]
      simp only [List.flatMap_cons, List.append_assoc]

/-- The first one of the fields left over is refused if its access is not 0 and it is not deprecated: its
access is read as a number of methods, and slot 0 as the descriptor of the first. -/
theorem visibleField {spelled : List (List Constant)} (h : Laid (poolOf spelled) d l) {f : Member}
    (hf : d.fields[d.fields.length % 65536]? = some f) (haccess : f.access.bits ≠ 0)
    (hdeprecated : f.deprecated = false) :
    ∃ bytes rest, leftBytes (PlacedMember.bytes l.mark) l.fields = bytes ++ rest ∧
      Fails (readMethods (poolOf spelled) c) bytes (.badIndex 0) := by
  rw [h.fields.length_eq] at hf
  obtain ⟨p, more, hdrop, hplaced⟩ := exists_left h.fields hf
  have hcount : p.access ≠ 0 := hplaced.access ▸ haccess
  have hfails := fails_undescribed p.name hcount hplaced.descriptor (text_zero spelled)
  refine ⟨_, more.flatMap (PlacedMember.bytes l.mark), ?_, hfails.bind _⟩
  have hplain : attributeBytes p.deprecated l.mark = bytes16 0 := by
    rw [hplaced.deprecated, hdeprecated]
    rfl
  unfold leftBytes
  rw [hdrop, List.flatMap_cons, PlacedMember.bytes, hplain]
  simp only [List.append_assoc]

/-- The first one of the methods left over is read as an empty list of attributes if its access is 0. -/
theorem hiddenMethod {refs : References} (h : Laid pool d l) {m : Member}
    (hm : d.methods[d.methods.length % 65536]? = some m) (haccess : m.access.bits = 0)
    (hrefs : pool.references c.name = .ok refs) :
    ∃ bytes rest, leftBytes (PlacedMember.bytes l.mark) l.methods = bytes ++ rest ∧
      Reads (readMarks pool c) bytes
        { c with deprecated := false, classRefs := refs.classes, memberRefs := refs.members } := by
  rw [h.methods.length_eq] at hm
  obtain ⟨p, more, hdrop, hplaced⟩ := exists_left h.methods hm
  refine ⟨bytes16 0, bytes16 p.name ++ bytes16 p.descriptor ++ attributeBytes p.deprecated l.mark
    ++ more.flatMap (PlacedMember.bytes l.mark), ?_, ?_⟩
  · unfold leftBytes
    rw [hdrop, List.flatMap_cons, PlacedMember.bytes, hplaced.access, haccess]
    simp only [List.append_assoc]
  · exact (reads_attributes h.mark false).map (Reads.look hrefs (.pure _))

end Laid

/-! ## A text that is too long -/

/-- Reads a class from its access on, with the pool and the version that were read before. -/
def readSelf (pool : Pool) (major : UInt16) : Reader ClassDefinition := do
  let access ← Reader.word16
  let name ← pool.className (← Reader.word16)
  let super ← readSuper pool
  readInterfaces pool ⟨name, ⟨access⟩, super, [], [], [], [], [], false, major⟩

theorem leads_magic : Leads readDefinition (bytes32 magic ++ (bytes16 0 ++ bytes16 writtenMajor))
    (readPool >>= fun pool => readSelf pool writtenMajor) := by
  unfold readDefinition
  apply (reads_word32 magic).leads
  rw [if_neg (not_not_intro rfl)]
  exact (reads_word16 0).leads (reads_word16 writtenMajor).leadsTo

/-- Of a text that is too long only the beginning is read, and the rest of it as what comes next. -/
theorem leads_tooLong {d : Draft} {before after : List Entry} {s : String}
    (hslots : d.slotCount ≤ 65534) (hkept : d.kept = before ++ .text s :: after)
    (hbefore : ∀ e ∈ before, e.Writable) :
    ∃ (pool : Pool) (more : List UInt8), pool.size + (after.map Entry.width).sum = d.slotCount + 1 ∧
      readDefinition d.build = (readSlots (after.map Entry.width).sum pool >>= fun pool =>
        readSelf pool writtenMajor) ((Text.utf8 s).drop ((Text.utf8 s).length % 65536) ++ more) := by
  have hlabels := d.nodup_kept
  rw [hkept, List.map_append] at hlabels
  obtain ⟨cs, hbytes, hcount⟩ := exists_constants (List.nodup_append.mp hlabels).1 hbefore
  obtain ⟨more, hbuild⟩ := Draft.build_of_kept hkept
  -- what is read of the text is a constant in its own right
  have hmeasured : ((Text.utf8 s).take ((Text.utf8 s).length % 65536)).length =
      (Text.utf8 s).length % 65536 := List.length_take_of_le (Nat.mod_le _ _)
  let c : RawConstant := .text ((Text.utf8 s).take ((Text.utf8 s).length % 65536)) (by omega)
  have htext : Entry.constantBytes (before.foldl Slots.enter Slots.start) (.text s) =
      c.bytes ++ (Text.utf8 s).drop ((Text.utf8 s).length % 65536) := by
    have hlength : UInt16.ofNat ((Text.utf8 s).take ((Text.utf8 s).length % 65536)).length =
        UInt16.ofNat (Text.utf8 s).length := by
      rw [hmeasured]
      apply UInt16.toNat_inj.mp
      simp
    show _ = (1 :: (bytes16 (UInt16.ofNat ((Text.utf8 s).take _).length) ++ (Text.utf8 s).take _)) ++ _
    rw [hlength, List.cons_append, List.append_assoc, List.take_append_drop]
    rfl
  have htotal : d.slotCount = (before.map Entry.width).sum + 1 + (after.map Entry.width).sum := by
    unfold Draft.slotCount
    rw [hkept]
    simp [Entry.width]
    omega
  have hconstants : slotCount (cs ++ [c]) = (before.map Entry.width).sum + 1 := by
    unfold slotCount at hcount ⊢
    rw [List.flatMap_append, List.length_append, hcount]
    rfl
  refine ⟨poolOf ((cs ++ [c]).map RawConstant.slots), more, ?_, ?_⟩
  · rw [size_poolOf, hconstants, htotal]
    omega
  · have hnumber : slotCount (cs ++ [c]) + (after.map Entry.width).sum + 1 =
        (UInt16.ofNat (d.slotCount + 1)).toNat := by
      rw [toNat_count (by omega)]
      omega
    have hpool := readPool_constants hnumber ((Text.utf8 s).drop ((Text.utf8 s).length % 65536) ++ more)
    have hwhole : d.build = (bytes32 magic ++ (bytes16 0 ++ bytes16 writtenMajor)) ++
        (bytes16 (UInt16.ofNat (d.slotCount + 1)) ++ ((cs ++ [c]).flatMap RawConstant.bytes ++
          ((Text.utf8 s).drop ((Text.utf8 s).length % 65536) ++ more))) := by
      rw [hbuild, hbytes, htext, Draft.opening, List.flatMap_append, List.flatMap_singleton]
      simp only [List.append_assoc]
    rw [hwhole, leads_magic]
    show (readPool _ >>= fun r => readSelf r.1 writtenMajor r.2) = _
    rw [hpool]
    rfl

/-- A text without control characters. -/
def Plain (s : String) : Prop := ∀ b ∈ Text.utf8 s, 0x20 ≤ b

/-- What comes after the beginning of a text: at least as many bytes as are never read of it. -/
theorem exists_four_bytes {bytes : List UInt8} (h : 65535 < bytes.length) :
    ∃ b₀ b₁ b₂ b₃ rest, bytes.drop (bytes.length % 65536) = b₀ :: b₁ :: b₂ :: b₃ :: rest ∧
      ∀ b ∈ [b₀, b₁, b₂, b₃], b ∈ bytes := by
  have hleft : 4 ≤ (bytes.drop (bytes.length % 65536)).length := by
    rw [List.length_drop]
    omega
  match hdrop : bytes.drop (bytes.length % 65536), hleft with
  | b₀ :: b₁ :: b₂ :: b₃ :: rest, _ =>
      refine ⟨b₀, b₁, b₂, b₃, rest, rfl, fun b hb => ?_⟩
      refine List.mem_of_mem_drop (i := bytes.length % 65536) ?_
      rw [hdrop]
      exact List.mem_append_left rest hb

theorem refused_of_plain {b : UInt8} (h : 0x20 ≤ b) (index : UInt16) (last : Bool) (rest : List UInt8) :
    readConstant index last (b :: rest) = .error (.unknownTag b index) := by
  refine refused_of_unknown (fun c hc => ?_) index last rest
  have htag := tag_mem_tags c
  rw [hc] at htag
  have hsmall : ∀ t ∈ tags, ¬ 0x20 ≤ t := by simp [tags]
  exact hsmall b htag h

/-- In a pool of this size no class is found under an index that is read from plain text. -/
theorem readSelf_plain {pool : Pool} {b₀ b₁ b₂ b₃ : UInt8} {major : UInt16} (hpool : pool.size ≤ 0x2020)
    (h₂ : 0x20 ≤ b₂) (h₃ : 0x20 ≤ b₃) (rest : List UInt8) :
    ∃ e, readSelf pool major (b₀ :: b₁ :: b₂ :: b₃ :: rest) = .error e := by
  have hhigh : 0x20 ≤ b₂.toNat := UInt8.le_iff_toNat_le.mp h₂
  have hlow : 0x20 ≤ b₃.toNat := UInt8.le_iff_toNat_le.mp h₃
  have hmax := b₂.toNat_lt
  have hmax' := b₃.toNat_lt
  have hindex : (UInt16.ofNat (b₂.toNat * 256 + b₃.toNat)).toNat = b₂.toNat * 256 + b₃.toNat :=
    toNat_count (by omega)
  have hnone : pool[(UInt16.ofNat (b₂.toNat * 256 + b₃.toNat)).toNat]? = none := by
    rw [Array.getElem?_eq_none_iff, hindex]
    omega
  have hname : pool.className (UInt16.ofNat (b₂.toNat * 256 + b₃.toNat)) =
      .error (.badIndex (UInt16.ofNat (b₂.toNat * 256 + b₃.toNat))) := by
    unfold Pool.className
    rw [hnone]
  have haccess : Reads Reader.word16 [b₀, b₁] (UInt16.ofNat (b₀.toNat * 256 + b₁.toNat)) := fun _ => rfl
  have hself : Reads Reader.word16 [b₂, b₃] (UInt16.ofNat (b₂.toNat * 256 + b₃.toNat)) := fun _ => rfl
  have hfails : Fails (readSelf pool major) ([b₀, b₁] ++ ([b₂, b₃] ++ [])) (.badIndex _) :=
    haccess.fails (hself.fails ((fails_lift hname).bind _))
  exact ⟨_, hfails rest⟩

end Linkage.ClassFile
