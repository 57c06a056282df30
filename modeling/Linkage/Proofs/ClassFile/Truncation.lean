import Linkage.Proofs.ClassFile.RoundTrip

/-!
# Class files that are cut short

A reader decides from the front of the bytes. What it has decided there stays when more bytes follow,
and the only thing it can say of bytes that end too soon is that they do.

* **`Steady`** — what a reader makes of some bytes it makes of them whatever follows, unless it finds
  them cut short;
* **`steady_readDefinition`** — reading a class file is steady, through the pool, the members, and the
  references that are followed at the end;
* **`Reads.cut`** — a steady reader that takes exactly some bytes finds every shorter beginning of them
  cut short;
* **`read_take`** — all beginnings of a class file.
-/

namespace Linkage.ClassFile

variable {α β : Type}

/-- More bytes change nothing but the rest, unless the bytes before them end too soon. -/
def Steady (m : Reader α) : Prop :=
  ∀ bytes more, m bytes = .error .truncated ∨
    m (bytes ++ more) = (m bytes).map fun r => (r.1, r.2 ++ more)

namespace Steady

theorem pure (x : α) : Steady (Pure.pure x : Reader α) := fun _ _ => Or.inr rfl

theorem bind {m : Reader α} {f : α → Reader β} (hm : Steady m) (hf : ∀ x, Steady (f x)) :
    Steady (m >>= f) := by
  intro bytes more
  have hrun : ∀ bytes, (m >>= f) bytes = m bytes >>= fun r => f r.1 r.2 := fun _ => rfl
  rw [hrun, hrun]
  rcases hm bytes more with hcut | hmore
  · left
    rw [hcut]
    rfl
  · rw [hmore]
    cases m bytes with
    | error d => exact Or.inr rfl
    | ok r => exact hf r.1 r.2 more

/-- What does not look at the bytes is steady. -/
theorem lift (e : Except Defect α) : Steady (liftM e : Reader α) := by
  intro bytes more
  right
  cases e <;> rfl

theorem throw (d : Defect) : Steady (MonadExcept.throw d : Reader α) := fun _ _ => Or.inr rfl

/-- A reader that goes on unless there is something wrong. -/
theorem provided {wrong : Prop} [Decidable wrong] {d : Defect} {rest : PUnit → Reader α}
    (h : ∀ u, Steady (rest u)) :
    Steady (if wrong then MonadExcept.throw d >>= rest else rest ⟨⟩) := by
  split
  · exact (throw d).bind h
  · exact h ⟨⟩

/-! ## Numbers and runs of bytes -/

theorem byte : Steady Reader.byte := by
  intro bytes more
  cases bytes with
  | nil => exact Or.inl rfl
  | cons b rest => exact Or.inr rfl

theorem word16 : Steady Reader.word16 := by
  intro bytes more
  match bytes with
  | [] | [_] => exact Or.inl rfl
  | _ :: _ :: _ => exact Or.inr rfl

theorem word32 : Steady Reader.word32 := by
  intro bytes more
  match bytes with
  | [] | [_] | [_, _] | [_, _, _] => exact Or.inl rfl
  | _ :: _ :: _ :: _ :: _ => exact Or.inr rfl

theorem take (n : Nat) : Steady (Reader.take n) := by
  intro bytes more
  by_cases hlength : n ≤ bytes.length
  · right
    have htake : (bytes ++ more).take n = bytes.take n := List.take_append_of_le_length hlength
    have hdrop : (bytes ++ more).drop n = bytes.drop n ++ more :=
      List.drop_append_of_le_length hlength
    have hcount : (bytes.take n).length = n := List.length_take_of_le hlength
    simp only [Reader.take, htake, hdrop, if_pos hcount]
    rfl
  · left
    have hcount : (bytes.take n).length ≠ n := by
      rw [List.length_take]
      omega
    simp only [Reader.take, if_neg hcount]

theorem skip (n : Nat) : Steady (Reader.skip n) := (take n).bind fun _ => pure ()

theorem timesAfter {item : Reader α} (h : Steady item) (n : Nat) (done : List α) :
    Steady (Reader.timesAfter item n done) := by
  induction n generalizing done with
  | zero => exact pure done.reverse
  | succ n ih => exact h.bind fun x => ih (x :: done)

theorem times {item : Reader α} (h : Steady item) (n : Nat) : Steady (Reader.times item n) :=
  h.timesAfter n []

end Steady

/-! ## The parts of a class file -/

theorem steady_member (kind : MemberKind) : Steady (readConstant.member kind) :=
  Steady.word16.bind fun _ => Steady.word16.bind fun _ => .pure _

/-- A constant that says nothing about linkage is passed over. -/
theorem steady_passed (n : Nat) (r : Reading) :
    Steady (do Reader.skip n; return r : Reader Reading) := (Steady.skip n).bind fun _ => .pure r

theorem steady_readConstant (index : UInt16) (last : Bool) : Steady (readConstant index last) := by
  refine Steady.byte.bind ?_
  intro tag
  have hwide : Steady (if last then throw (.badIndex index) else do Reader.skip 8; return .wide :
      Reader Reading) := by
    split
    · exact .throw _
    · exact steady_passed 8 .wide
  split
  · exact Steady.word16.bind fun _ => (Steady.take _).bind fun _ => .pure _
  · exact steady_passed 4 _
  · exact steady_passed 4 _
  · exact steady_passed 4 _
  · exact steady_passed 4 _
  · exact hwide
  · exact hwide
  · exact Steady.word16.bind fun _ => .pure _
  · exact steady_passed 2 _
  · exact steady_passed 2 _
  · exact steady_passed 2 _
  · exact steady_passed 2 _
  · exact steady_member .field
  · exact steady_member .method
  · exact steady_member .interfaceMethod
  · exact Steady.word16.bind fun _ => Steady.word16.bind fun _ => .pure _
  · exact steady_passed 3 _
  · exact .throw _

theorem steady_readSlots (n : Nat) (pool : Pool) : Steady (readSlots n pool) := by
  induction n, pool using readSlots.induct with
  | case1 pool => exact .pure pool
  | case2 pool =>
      refine (steady_readConstant _ true).bind ?_
      intro reading
      cases reading <;> exact .pure _
  | case3 n pool ihnarrow ihwide =>
      refine (steady_readConstant _ false).bind ?_
      intro reading
      cases reading with
      | narrow c => exact ihnarrow c
      | wide => exact ihwide

theorem steady_readPool : Steady readPool :=
  Steady.word16.bind fun _ => steady_readSlots _ _

/-- Indexes are followed in the pool, which is there as a whole. -/
theorem steady_look (look : UInt16 → Except Defect α) :
    Steady (do liftM (look (← Reader.word16)) : Reader α) := Steady.word16.bind fun _ => .lift _

theorem steady_readAttribute (pool : Pool) : Steady (readAttribute pool) :=
  Steady.word16.bind fun _ => (Steady.lift _).bind fun _ =>
    Steady.word32.bind fun _ => (Steady.skip _).bind fun _ => .pure _

theorem steady_readAttributes (pool : Pool) : Steady (readAttributes pool) :=
  Steady.word16.bind fun _ => ((steady_readAttribute pool).times _).bind fun _ => .pure _

theorem steady_readMember (pool : Pool) : Steady (readMember pool) :=
  Steady.word16.bind fun _ => Steady.word16.bind fun _ => (Steady.lift _).bind fun _ =>
    Steady.word16.bind fun _ => (Steady.lift _).bind fun _ =>
      (steady_readAttributes pool).bind fun _ => .pure _

theorem steady_readMembers (pool : Pool) : Steady (readMembers pool) :=
  Steady.word16.bind fun _ => (steady_readMember pool).times _

theorem steady_readSuper (pool : Pool) : Steady (readSuper pool) := by
  refine Steady.word16.bind ?_
  intro index
  split
  · exact .pure none
  · exact (Steady.lift _).bind fun _ => .pure _

theorem steady_readDefinition : Steady readDefinition := by
  refine Steady.word32.bind fun found => .provided ?_
  intro _
  refine Steady.word16.bind fun _ => Steady.word16.bind fun major => ?_
  refine steady_readPool.bind fun pool => Steady.word16.bind fun access => ?_
  refine Steady.word16.bind fun _ => (Steady.lift _).bind fun name => ?_
  refine (steady_readSuper pool).bind fun super => Steady.word16.bind fun count => ?_
  refine ((steady_look pool.className).times _).bind fun interfaces => ?_
  refine (steady_readMembers pool).bind fun fields => (steady_readMembers pool).bind fun methods => ?_
  refine (steady_readAttributes pool).bind fun deprecated => ?_
  -- the references are followed in the pool and take no bytes
  exact (Steady.lift (pool.references name)).bind fun refs => .pure _

/-! ## Beginnings -/

/-- A reader that takes exactly some bytes cannot do with fewer, and a steady one says so. -/
theorem Reads.cut {m : Reader α} {bytes beginning missing : List UInt8} {x : α} (h : Reads m bytes x)
    (hm : Steady m) (hbytes : beginning ++ missing = bytes) (hmissing : missing ≠ []) :
    m beginning = .error .truncated := by
  rcases hm beginning missing with hcut | hmore
  · exact hcut
  · have hwhole : m bytes = .ok (x, []) := by simpa using h []
    rw [hbytes, hwhole] at hmore
    -- otherwise what is missing would be left over
    cases hbeginning : m beginning with
    | error d =>
        rw [hbeginning] at hmore
        cases hmore
    | ok r =>
        rw [hbeginning] at hmore
        injection hmore with hmore
        injection hmore with _ hrest
        exact absurd (List.append_eq_nil_iff.mp hrest.symm).2 hmissing

theorem read_append (bytes more : List UInt8) :
    read bytes = .error .truncated ∨ read (bytes ++ more) = read bytes := by
  unfold read
  rcases steady_readDefinition bytes more with hcut | hmore
  · left
    rw [hcut]
    rfl
  · right
    rw [hmore]
    cases readDefinition bytes <;> rfl

/-- The beginnings of a class file are read as the whole or are cut short. So what has been read stays
when bytes are appended, and a class file as it is written is cut short wherever it is cut. -/
theorem read_take :
    (∀ bytes : List UInt8, ∀ k ≤ bytes.length,
      read (bytes.take k) = .error .truncated ∨ read (bytes.take k) = read bytes) ∧
    (∀ bytes more : List UInt8, read bytes ≠ .error .truncated → read (bytes ++ more) = read bytes) ∧
    ∀ d : Draft, d.WithinLimits → ∀ k ≤ d.build.length,
      (read (d.build.take k) = .error .truncated ↔ k < d.build.length) := by
  refine ⟨?_, ?_, ?_⟩
  · intro bytes k _
    have happend := read_append (bytes.take k) (bytes.drop k)
    rw [List.take_append_drop] at happend
    exact happend.imp id Eq.symm
  · intro bytes more hread
    exact (read_append bytes more).resolve_left hread
  · intro d hlimits k hk
    constructor
    · intro hcut
      by_contra hwhole
      rw [List.take_of_length_le (Nat.le_of_not_lt hwhole), hlimits.reads_back] at hcut
      cases hcut
    · intro hlt
      have hmissing : d.build.drop k ≠ [] := by
        rw [Ne, List.drop_eq_nil_iff]
        omega
      have hcut := hlimits.reads.cut steady_readDefinition (List.take_append_drop k _) hmissing
      rw [read, hcut]
      rfl

/-- The gallery, cut in the length of its last attribute; cut behind the whole of it, with more behind
it; and bytes that are no class file from the start. -/
theorem read_take_gallery :
    gallery.build.length = 229 ∧ read (gallery.build.take 226) = .error .truncated ∧
      read (gallery.build ++ [0xCA, 0xFE]) = read gallery.build ∧
      read ([0xCA, 0xFE, 0xBA, 0xBF] ++ gallery.build) = .error (.invalidMagic 0xCAFEBABF) := by
  have hlimits : gallery.WithinLimits := by decide +kernel
  have hlength : gallery.build.length = 229 := by decide +kernel
  obtain ⟨-, happend, hcut⟩ := read_take
  refine ⟨hlength, ?_, ?_, ?_⟩
  · exact (hcut gallery hlimits 226 (by omega)).mpr (by omega)
  · refine happend gallery.build _ ?_
    rw [hlimits.reads_back]
    exact nofun
  · exact happend [0xCA, 0xFE, 0xBA, 0xBF] gallery.build (by decide)

end Linkage.ClassFile
