import Linkage.Proofs.ClassFile.Overflow

/-!
# Drafts that are too large

A draft with more in it than two bytes can count is written all the same. What is read from it depends on what
the reader meets where it is out of step.

* **`countable_of_read`** — a class that is read has no more of anything than two bytes can count;
* **`OversizedLaws`**, **`oversizedLaws`** — when a draft in which something is too large is unreadable, and
  when another class is read from it;
* **`smuggler`** — a draft from which a class is read that is hidden in a text.
-/

namespace Linkage.ClassFile

variable {α : Type}

/-! ## Counts of what is read -/

theorem gives_timesAfter_length {m : Reader α} (n : Nat) (done : List α) :
    Gives (Reader.timesAfter m n done) fun xs => xs.length = done.length + n := by
  induction n generalizing done with
  | zero => exact .pure List.length_reverse
  | succ n ih =>
      refine (Gives.any m).bind fun x _ bytes xs rest hrun => ?_
      rw [ih (x :: done) bytes xs rest hrun, List.length_cons]
      omega

/-- A list after its count has no more elements than two bytes can count. -/
theorem gives_times_le {m : Reader α} (count : UInt16) :
    Gives (Reader.times m count.toNat) fun xs => xs.length ≤ 65535 := by
  intro bytes xs rest hrun
  have hlength := gives_timesAfter_length count.toNat [] bytes xs rest hrun
  have hmax := count.toNat_lt
  simp only [List.length_nil] at hlength
  omega

theorem gives_members_le (pool : Pool) : Gives (readMembers pool) fun ms => ms.length ≤ 65535 :=
  (Gives.any _).bind fun count _ => gives_times_le count

/-- A class has no more interfaces, fields and methods than two bytes can count. -/
structure Countable (c : ClassDefinition) : Prop where
  interfaces : c.interfaces.length ≤ 65535
  fields : c.fields.length ≤ 65535
  methods : c.methods.length ≤ 65535

theorem gives_countable : Gives readDefinition Countable := by
  refine (Gives.any _).bind fun found _ => .provided fun _ => ?_
  refine (Gives.any _).bind fun _ _ => (Gives.any _).bind fun major _ => ?_
  refine (Gives.any _).bind fun pool _ => (Gives.any _).bind fun access _ => ?_
  refine (Gives.any _).bind fun index _ => (Gives.any _).bind fun name _ => ?_
  refine (Gives.any _).bind fun super _ => (Gives.any _).bind fun count _ => ?_
  refine (gives_times_le count).bind fun interfaces hinterfaces => ?_
  refine (gives_members_le pool).bind fun fields hfields => ?_
  refine (gives_members_le pool).bind fun methods hmethods => (Gives.any _).bind fun deprecated _ => ?_
  exact (Gives.any _).bind fun refs _ => .pure ⟨hinterfaces, hfields, hmethods⟩

theorem countable_of_read {bytes : List UInt8} {c : ClassDefinition} (h : read bytes = .ok c) :
    Countable c := by
  unfold read at h
  cases hrun : readDefinition bytes with
  | error d =>
      rw [hrun] at h
      cases h
  | ok r =>
      rw [hrun] at h
      cases h
      exact gives_countable bytes r.1 r.2 hrun

/-! ## What becomes of the draft -/

namespace Draft

/-- Every text is short enough for its length. -/
def TextsFit (d : Draft) : Prop := ∀ s ∈ d.texts, (Text.utf8 s).length ≤ 65535

/-- There are more interfaces, fields or methods than two bytes can count. -/
def Crowded (d : Draft) : Prop :=
  65535 < d.interfaces.length ∨ 65535 < d.fields.length ∨ 65535 < d.methods.length

/-- No class with other interfaces, fields or methods is read from what is written. -/
def NeverChanged (d : Draft) : Prop :=
  ∀ c, read d.build = .ok c → c.interfaces = d.interfaces ∧ c.fields = d.fields ∧ c.methods = d.methods

/-- The class that is read back from a draft, but for the members. -/
def header (d : Draft) : ClassDefinition := d.readBack ⟨d.classesRead, d.membersRead⟩

end Draft

/-- What becomes of a draft whose constants can be numbered, if something else in it is too large. -/
structure OversizedLaws (d : Draft) : Prop where
  /-- Too many interfaces, fields or methods are never all read: either nothing is, or something else. -/
  crowded : d.Crowded → (d.NeverChanged ↔ ∃ e, read d.build = .error e)
  /-- With too many interfaces nothing is read, -/
  interfaces : d.TextsFit → 65535 < d.interfaces.length → ∃ slot, read d.build = .error (.badIndex slot)
  /-- with too many fields those beyond the count are read as methods and attributes, -/
  fields : d.TextsFit → d.interfaces.length ≤ 65535 → 65535 < d.fields.length →
    ∃ pool l, Laid pool d l ∧
      read d.build = (readMethods pool { d.header with fields := d.fields.take (d.fields.length % 65536) }
        (leftBytes (PlacedMember.bytes l.mark) l.fields
          ++ (countedBytes (PlacedMember.bytes l.mark) l.methods ++ attributeBytes d.deprecated l.mark))).map
        (·.1)
  /-- which fails if the first of them has an access and is not deprecated, -/
  visibleField : d.TextsFit → d.interfaces.length ≤ 65535 → 65535 < d.fields.length →
    ∀ f, d.fields[d.fields.length % 65536]? = some f → f.access.bits ≠ 0 → f.deprecated = false →
      read d.build = .error (.badIndex 0)
  /-- and with too many methods those beyond the count are read as attributes, -/
  methods : d.TextsFit → d.interfaces.length ≤ 65535 → d.fields.length ≤ 65535 → 65535 < d.methods.length →
    ∃ pool l, Laid pool d l ∧
      read d.build = (readMarks pool { d.header with methods := d.methods.take (d.methods.length % 65536) }
        (leftBytes (PlacedMember.bytes l.mark) l.methods ++ attributeBytes d.deprecated l.mark)).map (·.1)
  /-- which succeeds if the first of them has no access. -/
  hiddenMethod : d.TextsFit → d.interfaces.length ≤ 65535 → d.fields.length ≤ 65535 →
    65535 < d.methods.length → ∀ m, d.methods[d.methods.length % 65536]? = some m → m.access.bits = 0 →
      read d.build = .ok { d.header with
        methods := d.methods.take (d.methods.length % 65536), deprecated := false }
  /-- The first text that is too long leaves nothing to be read if it is plain and another constant follows
  it, or the constants are not very many. -/
  texts : ∀ before s after, d.kept = before ++ .text s :: after → (∀ e ∈ before, e.Writable) →
    65535 < (Text.utf8 s).length → Plain s → after ≠ [] ∨ d.slotCount < 0x2020 →
      ∃ e, read d.build = .error e

section OversizedLaws

variable {d : Draft}

/-- Of a draft whose constants fit, the reader comes to the fields if the interfaces can be counted. -/
theorem exists_leads (htexts : d.TextsFit) (hslots : d.slotCount ≤ 65534) :
    ∃ slots l spelled, Written slots d.kept spelled ∧ Laid (poolOf spelled) d l ∧
      d.build = d.front l slots ++ (countedBytes bytes16 l.interfaces
        ++ (countedBytes (PlacedMember.bytes l.mark) l.fields
          ++ (countedBytes (PlacedMember.bytes l.mark) l.methods
            ++ attributeBytes d.deprecated l.mark))) := by
  obtain ⟨spelled, hwritten, hlaid⟩ := Draft.exists_laid (Draft.fits_kept htexts hslots)
  refine ⟨_, _, spelled, hwritten, hlaid, ?_⟩
  rw [Draft.build_eq, Draft.assemble, Draft.front]
  simp only [List.append_assoc]

theorem neverChanged_iff (h : d.Crowded) : d.NeverChanged ↔ ∃ e, read d.build = .error e := by
  constructor
  · intro hsame
    cases hread : read d.build with
    | error e => exact ⟨e, rfl⟩
    | ok c =>
        obtain ⟨hinterfaces, hfields, hmethods⟩ := hsame c hread
        have hcount := countable_of_read hread
        have h₁ := hcount.interfaces
        have h₂ := hcount.fields
        have h₃ := hcount.methods
        rw [hinterfaces] at h₁
        rw [hfields] at h₂
        rw [hmethods] at h₃
        rcases h with h | h | h <;> omega
  · rintro ⟨e, hread⟩ c hc
    rw [hread] at hc
    cases hc

theorem unreadable_interfaces (hslots : d.slotCount ≤ 65534) (htexts : d.TextsFit)
    (hmany : 65535 < d.interfaces.length) : ∃ slot, read d.build = .error (.badIndex slot) := by
  obtain ⟨slots, l, spelled, hwritten, hlaid, hbuild⟩ := exists_leads htexts hslots
  obtain ⟨bytes, rest, slot, hbytes, hfails⟩ := hlaid.crowdedInterfaces (c := d.readBack ⟨[], []⟩) hmany
  have hwhole := ((Laid.leads hwritten hlaid).fails hfails).read
  refine ⟨slot, ?_⟩
  rw [hbuild, hbytes, List.append_assoc bytes, ← List.append_assoc (d.front l slots)]
  exact hwhole _

/-- What is read of a draft with too many fields. -/
theorem read_crowdedFields (hslots : d.slotCount ≤ 65534) (htexts : d.TextsFit)
    (hinterfaces : d.interfaces.length ≤ 65535) :
    ∃ spelled l, Laid (poolOf spelled) d l ∧
      read d.build = (readMethods (poolOf spelled)
        { d.header with fields := d.fields.take (d.fields.length % 65536) }
        (leftBytes (PlacedMember.bytes l.mark) l.fields
          ++ (countedBytes (PlacedMember.bytes l.mark) l.methods ++ attributeBytes d.deprecated l.mark))).map
        (·.1) := by
  obtain ⟨slots, l, spelled, hwritten, hlaid, hbuild⟩ := exists_leads htexts hslots
  refine ⟨spelled, l, hlaid, ?_⟩
  rw [read, hbuild, Laid.leads hwritten hlaid, hlaid.leads_fields hinterfaces, countedBytes_eq,
    List.append_assoc, hlaid.crowdedFields]
  rfl

theorem read_crowdedMethods (hslots : d.slotCount ≤ 65534) (htexts : d.TextsFit)
    (hinterfaces : d.interfaces.length ≤ 65535) (hfields : d.fields.length ≤ 65535) :
    ∃ spelled l, Laid (poolOf spelled) d l ∧
      (poolOf spelled).references d.name = .ok ⟨d.classesRead, d.membersRead⟩ ∧
      read d.build = (readMarks (poolOf spelled)
        { d.header with methods := d.methods.take (d.methods.length % 65536) }
        (leftBytes (PlacedMember.bytes l.mark) l.methods ++ attributeBytes d.deprecated l.mark)).map
        (·.1) := by
  obtain ⟨slots, l, spelled, hwritten, hlaid, hbuild⟩ := exists_leads htexts hslots
  refine ⟨spelled, l, hlaid, hwritten.references, ?_⟩
  rw [read, hbuild, Laid.leads hwritten hlaid, hlaid.leads_fields hinterfaces, hlaid.leads_methods hfields,
    countedBytes_eq, List.append_assoc, hlaid.crowdedMethods]
  rfl

/-- What is read of a draft with a text that is too long and plain. -/
theorem unreadable_text (hslots : d.slotCount ≤ 65534) {before after : List Entry} {s : String}
    (hkept : d.kept = before ++ .text s :: after) (hbefore : ∀ e ∈ before, e.Writable)
    (hlong : 65535 < (Text.utf8 s).length) (hplain : Plain s)
    (hnext : after ≠ [] ∨ d.slotCount < 0x2020) : ∃ e, read d.build = .error e := by
  obtain ⟨pool, more, hsize, hread⟩ := leads_tooLong hslots hkept hbefore
  obtain ⟨b₀, b₁, b₂, b₃, rest, hdrop, hmem⟩ := exists_four_bytes hlong
  have hb : ∀ b ∈ [b₀, b₁, b₂, b₃], 0x20 ≤ b := fun b hb => hplain b (hmem b hb)
  suffices hdefinition : ∃ e, readDefinition d.build = .error e by
    obtain ⟨e, he⟩ := hdefinition
    exact ⟨e, by rw [read, he]; rfl⟩
  rw [hread, hdrop]
  cases after with
  | nil =>
      -- the text was the last constant, and is read as the access and the name of the class
      have hfew := hnext.resolve_left (not_not_intro rfl)
      rw [List.map_nil, List.sum_nil] at hsize ⊢
      have hpool : pool.size ≤ 0x2020 := by omega
      have hrun : ∀ bytes, (readSlots 0 pool >>= fun pool => readSelf pool writtenMajor) bytes =
          readSelf pool writtenMajor bytes := fun _ => rfl
      rw [hrun]
      exact readSelf_plain hpool (hb b₂ (by simp)) (hb b₃ (by simp)) (rest ++ more)
  | cons e after =>
      obtain ⟨n, hn⟩ : ∃ n, ((e :: after).map Entry.width).sum = n + 1 := by
        refine Nat.exists_eq_succ_of_ne_zero ?_
        cases e <;> simp [Entry.width]
      have htag := refused_of_plain (hb b₀ (by simp)) (UInt16.ofNat pool.size) (n = 0)
        (b₁ :: b₂ :: b₃ :: rest ++ more)
      have hrefused := readSlots_refused htag
      rw [hn]
      refine ⟨.unknownTag b₀ (UInt16.ofNat pool.size), ?_⟩
      show (readSlots (n + 1) pool (b₀ :: (b₁ :: b₂ :: b₃ :: rest ++ more)) >>= _) = _
      rw [hrefused]
      rfl

/-- What becomes of any draft whose constants can be numbered. -/
theorem oversizedLaws (d : Draft) (hslots : d.slotCount ≤ 65534) : OversizedLaws d where
  crowded := neverChanged_iff
  interfaces := unreadable_interfaces hslots
  fields htexts hinterfaces _ := by
    obtain ⟨spelled, l, hlaid, hread⟩ := read_crowdedFields hslots htexts hinterfaces
    exact ⟨poolOf spelled, l, hlaid, hread⟩
  visibleField htexts hinterfaces _ f hf haccess hdeprecated := by
    obtain ⟨spelled, l, hlaid, hread⟩ := read_crowdedFields hslots htexts hinterfaces
    obtain ⟨bytes, rest, hbytes, hfails⟩ := hlaid.visibleField hf haccess hdeprecated
    rw [hread, hbytes, List.append_assoc, hfails]
    rfl
  methods htexts hinterfaces hfields _ := by
    obtain ⟨spelled, l, hlaid, -, hread⟩ := read_crowdedMethods hslots htexts hinterfaces hfields
    exact ⟨poolOf spelled, l, hlaid, hread⟩
  hiddenMethod htexts hinterfaces hfields _ m hm haccess := by
    obtain ⟨spelled, l, hlaid, hrefs, hread⟩ := read_crowdedMethods hslots htexts hinterfaces hfields
    obtain ⟨bytes, rest, hbytes, hmarks⟩ := Laid.hiddenMethod (c := { d.header with
      methods := d.methods.take (d.methods.length % 65536) }) hlaid hm haccess hrefs
    rw [hread, hbytes, List.append_assoc, hmarks]
    rfl
  texts _ _ _ hkept hbefore hlong hplain hnext :=
    unreadable_text hslots hkept hbefore hlong hplain hnext

end OversizedLaws

/-! ## Two texts that are too long -/

/-- Characters, and as many others behind them as are asked for. -/
def padded (cs : List Char) (n : Nat) : String := String.ofList (cs ++ List.replicate n 'x')

theorem utf8_padded (cs : List Char) (n : Nat) :
    Text.utf8 (padded cs n) = cs.flatMap String.utf8EncodeChar ++ List.replicate n 0x78 := by
  have hx : String.utf8EncodeChar 'x' = [0x78] := by decide
  have hpad : (List.replicate n 'x').flatMap String.utf8EncodeChar = List.replicate n 0x78 := by
    induction n with
    | zero => rfl
    | succ n ih =>
        rw [List.replicate_succ, List.flatMap_cons, ih, hx]
        rfl
  rw [Text.utf8_eq, padded, String.toList_ofList, List.flatMap_append, hpad]

/-- A class with an interface that refers to a class of this name. -/
def carrier (name : String) : Draft where
  name := "p/A"
  access := 1
  interfaces := ["p/I"]
  classRefs := [name]

/-- The constants before the name. -/
def beforeName : List Entry := Entry.ofClass "p/A" ++ Entry.ofClass "p/I"

theorem kept_carrier {name : String} (h : 65535 < (Text.utf8 name).length) :
    (carrier name).kept =
      beforeName ++ .text name :: [.classNamed name, .text deprecatedAttribute] := by
  have hne : ∀ other, (Text.utf8 other).length ≤ 65535 → name ≠ other := by
    rintro _ hother rfl
    omega
  have h₁ := hne "p/A" (by decide)
  have h₂ := hne "p/I" (by decide)
  have h₃ := hne "Deprecated" (by decide)
  simp [carrier, Draft.kept, Draft.entries, beforeName, Entry.ofClass, distinctBy, insertNewBy, Entry.label,
    deprecatedAttribute, h₁, h₂, Ne.symm h₃]

theorem slotCount_carrier {name : String} (h : 65535 < (Text.utf8 name).length) :
    (carrier name).slotCount = 7 := by
  unfold Draft.slotCount
  rw [kept_carrier h]
  rfl

/-- A name of one letter, repeated until it is too long, cannot be read. -/
theorem oversizedLaws_plain :
    (carrier (padded [] 65536)).slotCount ≤ 65534 ∧
      ∃ e, read (carrier (padded [] 65536)).build = .error e := by
  have hname : Text.utf8 (padded [] 65536) = List.replicate 65536 0x78 := utf8_padded [] 65536
  have hlong : 65535 < (Text.utf8 (padded [] 65536)).length := by
    rw [hname, List.length_replicate]
    omega
  have hslots : (carrier (padded [] 65536)).slotCount ≤ 65534 := by
    rw [slotCount_carrier hlong]
    omega
  refine ⟨hslots, (oversizedLaws _ hslots).texts _ _ _ (kept_carrier hlong) ?_ hlong ?_ (.inl nofun)⟩
  · intro e he
    simp only [beforeName, Entry.ofClass, List.cons_append, List.nil_append, List.mem_cons,
      List.not_mem_nil, or_false] at he
    rcases he with rfl | rfl | rfl | rfl <;> simp [Entry.Writable] <;> decide
  · intro b hb
    rw [hname] at hb
    rw [List.eq_of_mem_replicate hb]
    decide

/-- Two empty texts as constants, and a class without parents and members. -/
def hiddenClass : List Char :=
  [1, 0, 0, 1, 0, 0, 0, 1, 0, 2, 0, 0, 0, 0, 0, 0, 0, 0, 0, 0].map Char.ofNat

/-- A draft that refers to a class in whose name a class is hidden. -/
def smuggler : Draft := carrier (padded hiddenClass 65516)

/-- What is read of the class file: the constants, the name as an empty text, and what is hidden in it. -/
def smuggledFile : List UInt8 :=
  bytes32 magic ++ bytes16 0 ++ bytes16 writtenMajor ++ bytes16 8
    ++ (beforeName.foldl Slots.enter Slots.start).bytes
    ++ (1 :: bytes16 0 ++ hiddenClass.flatMap String.utf8EncodeChar)

theorem utf8_smuggled :
    Text.utf8 (padded hiddenClass 65516) =
        hiddenClass.flatMap String.utf8EncodeChar ++ List.replicate 65516 0x78 ∧
      (Text.utf8 (padded hiddenClass 65516)).length = 65536 := by
  have hname := utf8_padded hiddenClass 65516
  refine ⟨hname, ?_⟩
  rw [hname, List.length_append, List.length_replicate]
  rfl

theorem exists_build_smuggler : ∃ more, smuggler.build = smuggledFile ++ more := by
  obtain ⟨hname, hlength⟩ := utf8_smuggled
  have hlong : 65535 < (Text.utf8 (padded hiddenClass 65516)).length := by omega
  have hslots : smuggler.slotCount = 7 := slotCount_carrier hlong
  obtain ⟨more, hbuild⟩ := Draft.build_of_kept (d := smuggler) (kept_carrier hlong)
  -- of a length of 65536 nothing is left in two bytes
  refine ⟨List.replicate 65516 0x78 ++ more, ?_⟩
  rw [hbuild, Draft.opening, hslots, Entry.constantBytes, hlength, hname, smuggledFile]
  simp only [List.append_assoc, List.cons_append]
  rfl

/-- The hidden class is read, which does not have the interface that the draft gives. -/
theorem not_neverChanged_smuggler :
    smuggler.slotCount ≤ 65534 ∧ (∃ s ∈ smuggler.texts, 65535 < (Text.utf8 s).length) ∧
      ¬smuggler.NeverChanged := by
  have hlong : 65535 < (Text.utf8 (padded hiddenClass 65516)).length := by
    rw [utf8_smuggled.2]
    omega
  have hslots : smuggler.slotCount = 7 := slotCount_carrier hlong
  refine ⟨by omega, ⟨padded hiddenClass 65516, by simp [smuggler, carrier, Draft.texts], hlong⟩, ?_⟩
  intro hsame
  obtain ⟨more, hbuild⟩ := exists_build_smuggler
  have hclass : (read smuggledFile).toOption.map (·.interfaces) = some [] := by decide +kernel
  cases hread : read smuggledFile with
  | error e =>
      rw [hread] at hclass
      cases hclass
  | ok c =>
      rw [hread] at hclass
      have hnone : c.interfaces = [] := Option.some.inj hclass
      have hdone : read smuggledFile ≠ .error .truncated := by simp [hread]
      have hwhole : read smuggler.build = .ok c := by
        rw [hbuild, (read_append smuggledFile more).resolve_left hdone, hread]
      have hgiven : c.interfaces = ["p/I"] := (hsame c hwhole).1
      rw [hnone] at hgiven
      cases hgiven

end Linkage.ClassFile
