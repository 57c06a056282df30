import Linkage.Proofs.ClassFile.RoundTrip

/-!
# What the references of a class file cover

The reader follows the indexes of the header where it reads them, and scans the pool only afterwards. The
scan passes every constant of a class, so that it comes upon all that the header and the references to
members name, wherever their indexes point.

* **`Gives`** — what holds of all that a reader gives, whatever bytes it accepts;
* **`ReadFrom`**, **`exists_readFrom`** — every class that is read was read from a pool;
* **`Gathered`** — what a scan of the pool has noted at any time, kept by each constant;
* **`ReadFrom.covers`** — the scan leaves out nothing that the class names.
-/

namespace Linkage

/-- The names in the header of a class, its own apart, and those of the owners of the members it uses. -/
def ClassDefinition.parentsAndOwners (c : ClassDefinition) : List String :=
  c.super.toList ++ c.interfaces ++ c.memberRefs.map (·.owner)

end Linkage

namespace Linkage.ClassFile

/-! ## What a reader gives -/

section Gives

variable {α β : Type}

/-- Whatever bytes the reader accepts, it gives something with `P`. -/
def Gives (m : Reader α) (P : α → Prop) : Prop :=
  ∀ bytes x rest, m bytes = .ok (x, rest) → P x

namespace Gives

theorem any (m : Reader α) : Gives m fun _ => True := fun _ _ _ _ => trivial

theorem pure {P : α → Prop} {x : α} (h : P x) : Gives (Pure.pure x : Reader α) P := by
  intro bytes y rest hrun
  cases hrun
  exact h

theorem bind {m : Reader α} {f : α → Reader β} {P : α → Prop} {Q : β → Prop} (hm : Gives m P)
    (hf : ∀ x, P x → Gives (f x) Q) : Gives (m >>= f) Q := by
  intro bytes y rest hrun
  have hsteps : (m bytes >>= fun r => f r.1 r.2) = .ok (y, rest) := hrun
  cases hfirst : m bytes with
  | error d =>
      rw [hfirst] at hsteps
      cases hsteps
  | ok r =>
      rw [hfirst] at hsteps
      exact hf r.1 (hm bytes r.1 r.2 hfirst) r.2 y rest hsteps

/-- What is looked up without bytes. -/
theorem lift (e : Except Defect α) : Gives (liftM e : Reader α) fun x => e = .ok x := by
  intro bytes x rest hrun
  cases e with
  | error d => cases hrun
  | ok y =>
      cases hrun
      rfl

theorem throw {P : α → Prop} (d : Defect) : Gives (MonadExcept.throw d : Reader α) P :=
  fun _ _ _ hrun => nomatch hrun

/-- A reader that goes on unless there is something wrong. -/
theorem provided {wrong : Prop} [Decidable wrong] {d : Defect} {rest : PUnit → Reader α}
    {P : α → Prop} (h : ∀ u, Gives (rest u) P) :
    Gives (if wrong then MonadExcept.throw d >>= rest else rest ⟨⟩) P := by
  split
  · exact (throw (P := fun _ => True) d).bind fun u _ => h u
  · exact h ⟨⟩

theorem timesAfter {item : Reader α} {P : α → Prop} (h : Gives item P) (n : Nat) {done : List α}
    (hdone : ∀ x ∈ done, P x) : Gives (Reader.timesAfter item n done) fun xs => ∀ x ∈ xs, P x := by
  induction n generalizing done with
  | zero => exact pure fun x hx => hdone x (List.mem_reverse.mp hx)
  | succ n ih =>
      refine h.bind fun x hx => ih ?_
      rintro y (_ | ⟨_, hy⟩)
      · exact hx
      · exact hdone y hy

theorem times {item : Reader α} {P : α → Prop} (h : Gives item P) (n : Nat) :
    Gives (Reader.times item n) fun xs => ∀ x ∈ xs, P x :=
  h.timesAfter n nofun

end Gives

end Gives

/-! ## What a class file names -/

/-- A constant of the pool stands for a class of this name. -/
def Pool.Names (pool : Pool) (name : String) : Prop := ∃ index, pool.className index = .ok name

theorem gives_className (pool : Pool) :
    Gives (do liftM (pool.className (← Reader.word16)) : Reader String) pool.Names :=
  (Gives.any _).bind fun index _ bytes x rest hrun => ⟨index, Gives.lift _ bytes x rest hrun⟩

theorem gives_super (pool : Pool) :
    Gives (readSuper pool) fun super => ∀ name, super = some name → pool.Names name := by
  refine (Gives.any _).bind fun index _ => ?_
  split
  · exact .pure nofun
  · refine (Gives.lift _).bind fun name hname => .pure ?_
    rintro _ ⟨⟩
    exact ⟨index, hname⟩

/-- The header of a class names classes of the pool, and its references are those of the pool. -/
structure ReadFrom (pool : Pool) (c : ClassDefinition) : Prop where
  super : ∀ name, c.super = some name → pool.Names name
  interfaces : ∀ name ∈ c.interfaces, pool.Names name
  references : pool.references c.name = .ok ⟨c.classRefs, c.memberRefs⟩

theorem gives_readDefinition : Gives readDefinition fun c => ∃ pool, ReadFrom pool c := by
  refine (Gives.any _).bind fun found _ => .provided fun _ => ?_
  refine (Gives.any _).bind fun _ _ => (Gives.any _).bind fun major _ => ?_
  refine (Gives.any _).bind fun pool _ => (Gives.any _).bind fun access _ => ?_
  refine (Gives.any _).bind fun index _ => (Gives.any _).bind fun name _ => ?_
  refine (gives_super pool).bind fun super hsuper => (Gives.any _).bind fun count _ => ?_
  refine ((gives_className pool).times _).bind fun interfaces hinterfaces => ?_
  refine (Gives.any _).bind fun fields _ => (Gives.any _).bind fun methods _ => ?_
  refine (Gives.any _).bind fun deprecated _ => ?_
  refine (Gives.lift (pool.references name)).bind fun refs hrefs => .pure ?_
  exact ⟨pool, hsuper, hinterfaces, hrefs⟩

theorem exists_readFrom {bytes : List UInt8} {c : ClassDefinition} (h : read bytes = .ok c) :
    ∃ pool, ReadFrom pool c := by
  unfold read at h
  cases hrun : readDefinition bytes with
  | error d =>
      rw [hrun] at h
      cases h
  | ok r =>
      rw [hrun] at h
      cases h
      exact gives_readDefinition bytes r.1 r.2 hrun

/-! ## The scan of the pool -/

/-- What has been noted of the constants `done`. -/
structure Gathered (pool : Pool) (own : String) (done : List Constant) (refs : References) :
    Prop where
  distinct : refs.classes.Nodup
  notOwn : own ∉ refs.classes
  classes : ∀ i name plain, .classAt i ∈ done → pool.text i = .ok name →
    ClassName.element? name = some plain → plain = own ∨ plain ∈ refs.classes
  distinctMembers : refs.members.Nodup
  owners : ∀ r ∈ refs.members, pool.Names r.owner

section Scan

variable {pool : Pool} {own : String} {done : List Constant} {refs refs' : References}

theorem gathered_nil (pool : Pool) (own : String) : Gathered pool own [] ⟨[], []⟩ :=
  ⟨List.nodup_nil, nofun, nofun, List.nodup_nil, nofun⟩

/-- A constant that refers to nothing. -/
theorem Gathered.skip (h : Gathered pool own done refs) {k : Constant}
    (hk : ∀ i, k ≠ .classAt i) : Gathered pool own (done ++ [k]) refs := by
  refine ⟨h.distinct, h.notOwn, ?_, h.distinctMembers, h.owners⟩
  intro i name plain hi
  rcases List.mem_append.mp hi with hi | hi
  · exact h.classes i name plain hi
  · exact absurd (List.mem_singleton.mp hi).symm (hk i)

/-- The constant of a class, which is noted unless it is the one that is read. -/
theorem Gathered.classAt (h : Gathered pool own done refs) {i : UInt16} {name : String}
    (hname : pool.text i = .ok name) :
    Gathered pool own (done ++ [.classAt i])
      { refs with classes :=
          ((ClassName.element? name).filter (· ≠ own)).elim refs.classes (insertNew refs.classes) } := by
  -- what was noted stays, and what is noted now is another class than the one that is read
  have hnoted : ∀ plain, plain ∈ ((ClassName.element? name).filter (· ≠ own)).elim refs.classes
      (insertNew refs.classes) ↔ plain ∈ refs.classes ∨
        ClassName.element? name = some plain ∧ plain ≠ own := by
    intro plain
    have hnew := Option.filter_eq_some_iff (o := ClassName.element? name) (a := plain)
      (p := fun new => decide (new ≠ own))
    rw [decide_eq_true_iff] at hnew
    rw [← hnew]
    cases (ClassName.element? name).filter (· ≠ own) with
    | none => simp
    | some new => simp [mem_insertNew, eq_comm]
  refine ⟨?_, ?_, ?_, h.distinctMembers, h.owners⟩
  · cases (ClassName.element? name).filter (· ≠ own) with
    | none => exact h.distinct
    | some new => exact nodup_insertNew h.distinct new
  · intro hown
    rcases (hnoted own).mp hown with hold | ⟨-, hne⟩
    · exact h.notOwn hold
    · exact hne rfl
  · intro j name' plain hj hname' hplain
    rw [or_iff_not_imp_left]
    intro hne
    refine (hnoted plain).mpr ?_
    rcases List.mem_append.mp hj with hj | hj
    · exact Or.inl ((h.classes j name' plain hj hname' hplain).resolve_left hne)
    · cases List.mem_singleton.mp hj
      rw [hname] at hname'
      cases hname'
      exact Or.inr ⟨hplain, hne⟩

/-- The constant of a member. -/
theorem Gathered.member (h : Gathered pool own done refs) {kind : MemberKind} {o s : UInt16}
    {r : MemberRef} (howner : pool.Names r.owner) :
    Gathered pool own (done ++ [.member kind o s])
      { refs with members := insertNew refs.members r } := by
  have hskip := h.skip (k := .member kind o s) nofun
  refine ⟨hskip.distinct, hskip.notOwn, hskip.classes, nodup_insertNew h.distinctMembers r, ?_⟩
  intro r' hr'
  rcases mem_insertNew.mp hr' with hr' | rfl
  · exact h.owners r' hr'
  · exact howner

/-- Each constant that can be followed keeps to it. -/
theorem Gathered.note (h : Gathered pool own done refs) {k : Constant}
    (hnote : References.note pool own refs k = .ok refs') :
    Gathered pool own (done ++ [k]) refs' := by
  cases k with
  | text value =>
      cases hnote
      exact h.skip nofun
  | signature name descriptor =>
      cases hnote
      exact h.skip nofun
  | other =>
      cases hnote
      exact h.skip nofun
  | classAt i =>
      cases hname : pool.text i with
      | error d =>
          simp only [References.note, hname] at hnote
          cases hnote
      | ok name =>
          rw [note_classAt refs hname] at hnote
          cases hnote
          exact h.classAt hname
  | member kind o s =>
      simp only [References.note] at hnote
      cases howner : pool.className o with
      | error d =>
          rw [howner] at hnote
          cases hnote
      | ok owner =>
          rw [howner] at hnote
          cases hsignature : pool.signature s with
          | error d =>
              rw [hsignature] at hnote
              cases hnote
          | ok signature =>
              rw [hsignature] at hnote
              cases hnote
              exact h.member (r := ⟨kind, owner, signature.1, signature.2⟩) ⟨o, howner⟩

/-- A scan to its end. -/
theorem Gathered.scan (h : Gathered pool own done refs) {ks : List Constant}
    (hscan : ks.foldlM (References.note pool own) refs = .ok refs') :
    Gathered pool own (done ++ ks) refs' := by
  induction ks generalizing done refs with
  | nil =>
      cases hscan
      rwa [List.append_nil]
  | cons k ks ih =>
      rw [List.foldlM_cons] at hscan
      cases hnote : References.note pool own refs k with
      | error d =>
          rw [hnote] at hscan
          cases hscan
      | ok between =>
          rw [hnote] at hscan
          have hrest := ih (h.note hnote) hscan
          rwa [List.append_assoc] at hrest

theorem gathered_references (h : pool.references own = .ok refs) :
    Gathered pool own pool.toList refs :=
  (gathered_nil pool own).scan h

/-- Every name of the pool has been noted, unless it stands for the class that is read or for none. -/
theorem Gathered.covers (h : Gathered pool own pool.toList refs) {name plain : String}
    (hname : pool.Names name) (hplain : ClassName.element? name = some plain) :
    plain = own ∨ plain ∈ refs.classes := by
  obtain ⟨index, hclass⟩ := hname
  obtain ⟨i, hslot, htext⟩ := Pool.className_eq_ok.mp hclass
  have hmem : Constant.classAt i ∈ pool.toList :=
    List.mem_of_getElem? (Array.getElem?_toList.trans hslot)
  exact h.classes i name plain hmem htext hplain

end Scan

/-- Of the classes that the header and the members used name, the references leave out none. -/
theorem ReadFrom.covers {pool : Pool} {c : ClassDefinition} (h : ReadFrom pool c) {name plain : String}
    (hname : name ∈ c.parentsAndOwners) (hplain : ClassName.element? name = some plain) :
    plain = c.name ∨ plain ∈ c.classRefs := by
  have hgathered := gathered_references h.references
  refine hgathered.covers ?_ hplain
  rcases List.mem_append.mp hname with hparent | howner
  · rcases List.mem_append.mp hparent with hsuper | hinterface
    · exact h.super name (Option.mem_toList.mp hsuper)
    · exact h.interfaces name hinterface
  · obtain ⟨r, hr, rfl⟩ := List.mem_map.mp howner
    exact hgathered.owners r hr

end Linkage.ClassFile
