import Linkage.ClassFile.Writer
import Linkage.Proofs.Text.Lossy
import Mathlib.Data.List.Forall2

/-!
# Bytes that read as what was written

A reader takes from the front of the bytes what it needs and leaves the rest. So what one writer puts
behind another is read by one reader after the other.

* **`Reads`** — a reader takes exactly these bytes, whatever follows them, and finds a value in them;
* **`Leads`** — a reader takes these bytes and goes on as another one;
* **`Reads.times`** — items in turn, and **`Reads.counted`**, items after their count;
* **`Fills`** — bytes that fill slots of a pool, and the bytes of each kind of constant.
-/

namespace Linkage.ClassFile

variable {α β γ : Type}

/-- The reader takes these bytes and no others, and finds `x` in them. -/
def Reads (m : Reader α) (bytes : List UInt8) (x : α) : Prop :=
  ∀ rest, m (bytes ++ rest) = .ok (x, rest)

theorem Reads.pure (x : α) : Reads (Pure.pure x) [] x := fun _ => rfl

theorem Reads.bind {m : Reader α} {f : α → Reader β} {bytes bytes' : List UInt8} {x : α} {y : β}
    (hm : Reads m bytes x) (hf : Reads (f x) bytes' y) : Reads (m >>= f) (bytes ++ bytes') y := by
  intro rest
  rw [List.append_assoc]
  show (m (bytes ++ (bytes' ++ rest)) >>= fun r => f r.1 r.2) = _
  rw [hm]
  exact hf rest

theorem Reads.map {m : Reader α} {f : α → Reader β} {bytes : List UInt8} {x : α} {y : β}
    (hm : Reads m bytes x) (hf : Reads (f x) [] y) : Reads (m >>= f) bytes y := by
  have h := hm.bind hf
  rwa [List.append_nil] at h

/-- A look-up that succeeds takes no bytes. -/
theorem Reads.lift {e : Except Defect α} {x : α} (h : e = .ok x) :
    Reads (liftM e : Reader α) [] x := by
  intro rest
  rw [h]
  rfl

theorem Reads.look {e : Except Defect α} {f : α → Reader β} {bytes : List UInt8} {x : α} {y : β}
    (h : e = .ok x) (hf : Reads (f x) bytes y) :
    Reads ((liftM e : Reader α) >>= f) bytes y :=
  (Reads.lift h).bind hf

/-- The reader takes these bytes and goes on as another one. -/
def Leads (m : Reader α) (bytes : List UInt8) (next : Reader α) : Prop :=
  ∀ rest, m (bytes ++ rest) = next rest

theorem Reads.leads {m : Reader α} {f : α → Reader β} {bytes bytes' : List UInt8} {x : α}
    {next : Reader β} (hm : Reads m bytes x) (hf : Leads (f x) bytes' next) :
    Leads (m >>= f) (bytes ++ bytes') next := by
  intro rest
  rw [List.append_assoc]
  show (m (bytes ++ (bytes' ++ rest)) >>= fun r => f r.1 r.2) = _
  rw [hm]
  exact hf rest

/-- The step before another reader. -/
theorem Reads.leadsTo {m : Reader α} {f : α → Reader β} {bytes : List UInt8} {x : α}
    (hm : Reads m bytes x) : Leads (m >>= f) bytes (f x) := by
  intro rest
  show (m (bytes ++ rest) >>= fun r => f r.1 r.2) = _
  rw [hm]
  rfl

theorem Reads.leadsLook {e : Except Defect α} {f : α → Reader β} {bytes : List UInt8} {x : α}
    {next : Reader β} (h : e = .ok x) (hf : Leads (f x) bytes next) :
    Leads ((liftM e : Reader α) >>= f) bytes next :=
  (Reads.lift h).leads hf

theorem Leads.reads {m next : Reader α} {bytes bytes' : List UInt8} {x : α} (h : Leads m bytes next)
    (hnext : Reads next bytes' x) : Reads m (bytes ++ bytes') x := by
  intro rest
  rw [List.append_assoc, h]
  exact hnext rest

/-! ## Numbers -/

theorem reads_byte (b : UInt8) : Reads Reader.byte [b] b := fun _ => rfl

theorem reads_word16 (w : UInt16) : Reads Reader.word16 (bytes16 w) w := by
  intro rest
  have hhigh : (w >>> 8).toUInt8.toNat = w.toNat / 256 := by
    have hlt := w.toNat_lt
    simp [UInt16.toNat_shiftRight, Nat.shiftRight_eq_div_pow]
    omega
  have hlow : w.toUInt8.toNat = w.toNat % 256 := by simp
  have hword : UInt16.ofNat ((w >>> 8).toUInt8.toNat * 256 + w.toUInt8.toNat) = w := by
    rw [hhigh, hlow, Nat.mul_comm, Nat.div_add_mod]
    exact UInt16.ofNat_toNat
  show Except.ok (UInt16.ofNat ((w >>> 8).toUInt8.toNat * 256 + w.toUInt8.toNat), rest) = _
  rw [hword]

theorem reads_word32 (w : UInt32) : Reads Reader.word32 (bytes32 w) w := by
  intro rest
  have hlt := w.toNat_lt
  have h₃ : (w >>> 24).toUInt8.toNat = w.toNat / 16777216 := by
    simp [UInt32.toNat_shiftRight, Nat.shiftRight_eq_div_pow]
    omega
  have h₂ : (w >>> 16).toUInt8.toNat = w.toNat / 65536 % 256 := by
    simp [UInt32.toNat_shiftRight, Nat.shiftRight_eq_div_pow]
  have h₁ : (w >>> 8).toUInt8.toNat = w.toNat / 256 % 256 := by
    simp [UInt32.toNat_shiftRight, Nat.shiftRight_eq_div_pow]
  have h₀ : w.toUInt8.toNat = w.toNat % 256 := by simp
  have hword : UInt32.ofNat ((((w >>> 24).toUInt8.toNat * 256 + (w >>> 16).toUInt8.toNat) * 256 +
      (w >>> 8).toUInt8.toNat) * 256 + w.toUInt8.toNat) = w := by
    have hsum : ((w.toNat / 16777216 * 256 + w.toNat / 65536 % 256) * 256 + w.toNat / 256 % 256) *
        256 + w.toNat % 256 = w.toNat := by omega
    rw [h₃, h₂, h₁, h₀, hsum]
    exact UInt32.ofNat_toNat
  show Except.ok (UInt32.ofNat ((((w >>> 24).toUInt8.toNat * 256 + (w >>> 16).toUInt8.toNat) * 256 +
    (w >>> 8).toUInt8.toNat) * 256 + w.toUInt8.toNat), rest) = _
  rw [hword]

theorem reads_take (bytes : List UInt8) : Reads (Reader.take bytes.length) bytes bytes := by
  intro rest
  simp [Reader.take]

theorem reads_skip (bytes : List UInt8) : Reads (Reader.skip bytes.length) bytes () :=
  (reads_take bytes).map (.pure ())

theorem toNat_count {n : Nat} (h : n ≤ 65535) : (UInt16.ofNat n).toNat = n := by
  apply UInt16.toNat_ofNat_of_lt'
  show n < 65536
  omega

/-! ## Items in turn -/

theorem Reads.timesAfter {item : Reader β} {encode : α → List UInt8} {xs : List α} {ys : List β}
    (h : List.Forall₂ (fun x y => Reads item (encode x) y) xs ys) (done : List β) :
    Reads (Reader.timesAfter item xs.length done) (xs.flatMap encode) (done.reverse ++ ys) := by
  induction h generalizing done with
  | nil =>
      rw [List.append_nil]
      exact .pure done.reverse
  | @cons x y xs ys hitem _ ih =>
      have hrest := ih (y :: done)
      rw [List.reverse_cons, List.append_assoc] at hrest
      exact hitem.bind hrest

theorem Reads.times {item : Reader β} {encode : α → List UInt8} {xs : List α} {ys : List β}
    (h : List.Forall₂ (fun x y => Reads item (encode x) y) xs ys) :
    Reads (Reader.times item xs.length) (xs.flatMap encode) ys :=
  Reads.timesAfter h []

/-- Of items after their count as many are read as the low sixteen bits of the count say. -/
theorem Reads.countedLow {item : Reader β} {encode : α → List UInt8} {xs : List α} {ys : List β}
    (h : List.Forall₂ (fun x y => Reads item (encode x) y) xs ys) :
    Reads (do let count ← Reader.word16; Reader.times item count.toNat)
      (bytes16 (UInt16.ofNat xs.length) ++ (xs.take (xs.length % 65536)).flatMap encode)
      (ys.take (xs.length % 65536)) := by
  have hlength : (xs.take (xs.length % 65536)).length = (UInt16.ofNat xs.length).toNat := by
    rw [List.length_take_of_le (Nat.mod_le _ _)]
    rfl
  have htimes := Reads.times (List.forall₂_take (xs.length % 65536) h)
  rw [hlength] at htimes
  exact (reads_word16 _).bind htimes

/-- Items after their count, if two bytes are enough for it. -/
theorem Reads.counted {item : Reader β} {encode : α → List UInt8} {xs : List α} {ys : List β}
    (h : List.Forall₂ (fun x y => Reads item (encode x) y) xs ys) (hcount : xs.length ≤ 65535) :
    Reads (do let count ← Reader.word16; Reader.times item count.toNat) (countedBytes encode xs)
      ys := by
  have hlow := Reads.countedLow h
  have hmod : xs.length % 65536 = xs.length := Nat.mod_eq_of_lt (by omega)
  rwa [hmod, List.take_length, h.length_eq, List.take_length, ← h.length_eq] at hlow

/-! ## Slots -/

/-- The bytes fill the next slots of any pool with these constants. -/
def Fills (bytes : List UInt8) (cs : List Constant) : Prop :=
  ∀ (n : Nat) (pool : Pool) (rest : List UInt8),
    readSlots (cs.length + n) pool (bytes ++ rest) = readSlots n (pool ++ cs.toArray) rest

theorem Fills.nil : Fills [] [] := by
  intro n pool rest
  simp

theorem Fills.append {bytes bytes' : List UInt8} {cs cs' : List Constant} (h : Fills bytes cs)
    (h' : Fills bytes' cs') : Fills (bytes ++ bytes') (cs ++ cs') := by
  intro n pool rest
  rw [List.append_assoc, List.length_append, Nat.add_assoc, h, h']
  simp

/-- A constant of one slot, wherever it stands. -/
theorem Fills.narrow {bytes : List UInt8} {c : Constant}
    (h : ∀ index last, Reads (readConstant index last) bytes (.narrow c)) : Fills bytes [c] := by
  intro n pool rest
  -- the last slot of a pool is read by a branch of its own
  cases n with
  | zero =>
      show (readConstant _ true (bytes ++ rest) >>= fun r => _) = _
      rw [h _ true rest]
      rfl
  | succ n =>
      rw [Nat.add_comm]
      show (readConstant _ false (bytes ++ rest) >>= fun r => _) = _
      rw [h _ false rest]
      rfl

/-- A constant of two slots. -/
theorem Fills.wide {bytes : List UInt8}
    (h : ∀ index, Reads (readConstant index false) bytes .wide) : Fills bytes [.other, .other] := by
  intro n pool rest
  rw [Nat.add_comm]
  show (readConstant _ false (bytes ++ rest) >>= fun r => _) = _
  rw [h _ rest]
  rfl

/-! ## Constants as they are written -/

theorem fills_text {value : String} (h : (Text.utf8 value).length ≤ 65535) :
    Fills (1 :: bytes16 (UInt16.ofNat (Text.utf8 value).length) ++ Text.utf8 value)
      [.text value] := by
  apply Fills.narrow
  intro index last
  have htake := reads_take (Text.utf8 value)
  rw [← toNat_count h] at htake
  have hvalue : Reads
      (Pure.pure (Reading.narrow (.text (Text.decodeLossy (Text.utf8 value)))) : Reader Reading) []
      (.narrow (.text value)) := by
    rw [Text.decodeLossy_utf8]
    exact .pure _
  exact (reads_byte 1).bind ((reads_word16 _).bind (htake.map hvalue))

theorem fills_class (name : UInt16) : Fills (7 :: bytes16 name) [.classAt name] := by
  apply Fills.narrow
  intro index last
  exact (reads_byte 7).bind ((reads_word16 name).map (.pure _))

theorem fills_signature (name descriptor : UInt16) :
    Fills (12 :: bytes16 name ++ bytes16 descriptor) [.signature name descriptor] := by
  apply Fills.narrow
  intro index last
  exact (reads_byte 12).bind ((reads_word16 name).bind ((reads_word16 descriptor).map (.pure _)))

theorem fills_member (kind : MemberKind) (owner sig : UInt16) :
    Fills (Writing.memberTag kind :: bytes16 owner ++ bytes16 sig) [.member kind owner sig] := by
  apply Fills.narrow
  intro index last
  have hparts : Reads (readConstant.member kind) (bytes16 owner ++ bytes16 sig)
      (.narrow (.member kind owner sig)) :=
    (reads_word16 owner).bind ((reads_word16 sig).map (.pure _))
  cases kind <;> exact (reads_byte _).bind hparts

theorem fills_long (value : UInt64) : Fills (5 :: bytes64 value) [.other, .other] := by
  apply Fills.wide
  intro index
  exact (reads_byte 5).bind ((reads_skip (bytes64 value)).map (.pure _))

end Linkage.ClassFile
