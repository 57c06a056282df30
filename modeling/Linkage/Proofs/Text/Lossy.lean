import Linkage.Text.Lossy
import Mathlib.Data.Nat.Basic

/-!
# Texts survive their bytes

Reading is lossy only where bytes are no UTF-8. The bytes of a text are read character by character:
between two characters nothing is open, and the bytes of one character open it and close it again.

* **`ofLead_eq`** — what the first byte of a character promises, by its number;
* **`foldl_step_utf8EncodeChar`** — the bytes of one character;
* **`decodeLossy_utf8`** — the bytes of a text.
-/

namespace Linkage.Text

/-- The numbers of the first bytes of characters, in the order of the ranges. -/
theorem ofLead_eq (b : UInt8) :
    OpenChar.ofLead b =
      if b.toNat < 0x80 then some ⟨b.toNat, []⟩
      else if b.toNat < 0xC2 then none
      else if b.toNat < 0xE0 then some ⟨b.toNat - 0xC0, [anyTail]⟩
      else if b.toNat = 0xE0 then some ⟨0, [(0xA0, 0xBF), anyTail]⟩
      else if b.toNat = 0xED then some ⟨0xD, [(0x80, 0x9F), anyTail]⟩
      else if b.toNat < 0xF0 then some ⟨b.toNat - 0xE0, [anyTail, anyTail]⟩
      else if b.toNat = 0xF0 then some ⟨0, [(0x90, 0xBF), anyTail, anyTail]⟩
      else if b.toNat < 0xF4 then some ⟨b.toNat - 0xF0, [anyTail, anyTail, anyTail]⟩
      else if b.toNat = 0xF4 then some ⟨4, [(0x80, 0x8F), anyTail, anyTail]⟩
      else none := by
  unfold OpenChar.ofLead
  simp only [UInt8.lt_iff_toNat_lt, ← UInt8.toNat_inj]
  rfl

/-- A byte that is owed, by its number. -/
theorem step_owed (chars : List Char) (bits : Nat) (lo hi : UInt8) (owed : List (UInt8 × UInt8))
    (b : UInt8) (h : lo.toNat ≤ b.toNat ∧ b.toNat ≤ hi.toNat) :
    Decoding.step ⟨chars, some ⟨bits, (lo, hi) :: owed⟩⟩ b =
      Decoding.settle chars ⟨bits * 64 + (b.toNat - 0x80), owed⟩ := by
  have hrange : lo ≤ b ∧ b ≤ hi := by
    simpa only [UInt8.le_iff_toNat_le] using h
  simp only [Decoding.step, if_pos hrange]

/-- The last byte of a character writes it down. -/
theorem step_last (chars : List Char) (bits : Nat) (lo hi : UInt8) (b : UInt8)
    (h : lo.toNat ≤ b.toNat ∧ b.toNat ≤ hi.toNat) :
    Decoding.step ⟨chars, some ⟨bits, [(lo, hi)]⟩⟩ b =
      ⟨Char.ofNat (bits * 64 + (b.toNat - 0x80)) :: chars, none⟩ :=
  step_owed chars bits lo hi [] b h

/-- Any other byte leaves it open. -/
theorem step_inner (chars : List Char) (bits : Nat) (lo hi : UInt8) (next : UInt8 × UInt8)
    (owed : List (UInt8 × UInt8)) (b : UInt8) (h : lo.toNat ≤ b.toNat ∧ b.toNat ≤ hi.toNat) :
    Decoding.step ⟨chars, some ⟨bits, (lo, hi) :: next :: owed⟩⟩ b =
      ⟨chars, some ⟨bits * 64 + (b.toNat - 0x80), next :: owed⟩⟩ :=
  step_owed chars bits lo hi (next :: owed) b h

/-- The first byte of a character that needs more of them. -/
theorem step_lead (chars : List Char) (b : UInt8) {bits : Nat} {next : UInt8 × UInt8}
    {owed : List (UInt8 × UInt8)} (h : OpenChar.ofLead b = some ⟨bits, next :: owed⟩) :
    Decoding.step ⟨chars, none⟩ b = ⟨chars, some ⟨bits, next :: owed⟩⟩ := by
  simp only [Decoding.step, Decoding.lead, h, Decoding.settle]

theorem toNat_byte {n : Nat} (h : n < 256) : (UInt8.ofNat n).toNat = n :=
  UInt8.toNat_ofNat_of_lt' h

/-- The surrogates are no characters. -/
theorem toNat_valid (c : Char) : c.toNat < 0xD800 ∨ 0xDFFF < c.toNat ∧ c.toNat < 0x110000 :=
  c.valid

/-! ## Characters -/

theorem foldl_step_two {v : Nat} (chars : List Char) (hlow : 0x80 ≤ v) (hhigh : v < 0x800) :
    [UInt8.ofNat (v / 64 % 32 + 192), UInt8.ofNat (v % 64 + 128)].foldl Decoding.step
      ⟨chars, none⟩ = ⟨Char.ofNat v :: chars, none⟩ := by
  have hlead : OpenChar.ofLead (UInt8.ofNat (v / 64 % 32 + 192)) = some ⟨v / 64, [anyTail]⟩ := by
    have hbits : v / 64 % 32 + 192 - 0xC0 = v / 64 := by omega
    rw [ofLead_eq, toNat_byte (by omega), if_neg (by omega), if_neg (by omega), if_pos (by omega),
      hbits]
  have hlast : (UInt8.ofNat (v % 64 + 128)).toNat = v % 64 + 128 := toNat_byte (by omega)
  have hnumber : v / 64 * 64 + (v % 64 + 128 - 0x80) = v := by omega
  rw [List.foldl_cons, step_lead _ _ hlead, List.foldl_cons, anyTail,
    step_last _ _ _ _ _ (by rw [hlast]; simp; omega), hlast, hnumber]
  rfl

theorem foldl_step_three {v : Nat} (chars : List Char) (hlow : 0x800 ≤ v) (hhigh : v < 0x10000)
    (hvalid : v < 0xD800 ∨ 0xDFFF < v) :
    [UInt8.ofNat (v / 4096 % 16 + 224), UInt8.ofNat (v / 64 % 64 + 128),
      UInt8.ofNat (v % 64 + 128)].foldl Decoding.step ⟨chars, none⟩ =
        ⟨Char.ofNat v :: chars, none⟩ := by
  -- the first byte says in which range the second one lies: it keeps out what takes fewer bytes and
  -- the surrogates
  obtain ⟨lo, hi, hlead, hlo, hhi⟩ : ∃ lo hi : UInt8,
      OpenChar.ofLead (UInt8.ofNat (v / 4096 % 16 + 224)) = some ⟨v / 4096, [(lo, hi), anyTail]⟩ ∧
        lo.toNat ≤ v / 64 % 64 + 128 ∧ v / 64 % 64 + 128 ≤ hi.toNat := by
    rw [ofLead_eq, toNat_byte (by omega), if_neg (by omega), if_neg (by omega), if_neg (by omega)]
    -- the first lead leaves out the overlong forms, one later lead the surrogates
    by_cases hfirst : v / 4096 = 0
    · rw [if_pos (by omega), hfirst]
      exact ⟨_, _, rfl, by simp; omega, by simp; omega⟩
    · rw [if_neg (by omega)]
      by_cases hsurrogate : v / 4096 = 0xD
      · rw [if_pos (by omega), hsurrogate]
        exact ⟨_, _, rfl, by simp, by simp; omega⟩
      · have hbits : v / 4096 % 16 + 224 - 0xE0 = v / 4096 := by omega
        rw [if_neg (by omega), if_pos (by omega), hbits]
        exact ⟨_, _, rfl, by simp, by simp; omega⟩
  have hsecond : (UInt8.ofNat (v / 64 % 64 + 128)).toNat = v / 64 % 64 + 128 := toNat_byte (by omega)
  have hlast : (UInt8.ofNat (v % 64 + 128)).toNat = v % 64 + 128 := toNat_byte (by omega)
  have hnumber : (v / 4096 * 64 + (v / 64 % 64 + 128 - 0x80)) * 64 + (v % 64 + 128 - 0x80) = v := by
    omega
  rw [List.foldl_cons, step_lead _ _ hlead, List.foldl_cons,
    step_inner _ _ _ _ _ _ _ (by rw [hsecond]; exact ⟨hlo, hhi⟩), List.foldl_cons, anyTail,
    step_last _ _ _ _ _ (by rw [hlast]; simp; omega), hsecond, hlast, hnumber]
  rfl

theorem foldl_step_four {v : Nat} (chars : List Char) (hlow : 0x10000 ≤ v) (hhigh : v < 0x110000) :
    [UInt8.ofNat (v / 262144 % 8 + 240), UInt8.ofNat (v / 4096 % 64 + 128),
      UInt8.ofNat (v / 64 % 64 + 128), UInt8.ofNat (v % 64 + 128)].foldl Decoding.step
        ⟨chars, none⟩ = ⟨Char.ofNat v :: chars, none⟩ := by
  obtain ⟨lo, hi, hlead, hlo, hhi⟩ : ∃ lo hi : UInt8,
      OpenChar.ofLead (UInt8.ofNat (v / 262144 % 8 + 240)) =
          some ⟨v / 262144, [(lo, hi), anyTail, anyTail]⟩ ∧
        lo.toNat ≤ v / 4096 % 64 + 128 ∧ v / 4096 % 64 + 128 ≤ hi.toNat := by
    rw [ofLead_eq, toNat_byte (by omega), if_neg (by omega), if_neg (by omega), if_neg (by omega),
      if_neg (by omega), if_neg (by omega), if_neg (by omega)]
    -- the first lead leaves out the overlong forms, the last one what is past the last character
    by_cases hfirst : v / 262144 = 0
    · rw [if_pos (by omega), hfirst]
      exact ⟨_, _, rfl, by simp; omega, by simp; omega⟩
    · rw [if_neg (by omega)]
      by_cases hpast : v / 262144 = 4
      · rw [if_neg (by omega), if_pos (by omega), hpast]
        exact ⟨_, _, rfl, by simp, by simp; omega⟩
      · have hbits : v / 262144 % 8 + 240 - 0xF0 = v / 262144 := by omega
        rw [if_pos (by omega), hbits]
        exact ⟨_, _, rfl, by simp, by simp; omega⟩
  have hsecond : (UInt8.ofNat (v / 4096 % 64 + 128)).toNat = v / 4096 % 64 + 128 :=
    toNat_byte (by omega)
  have hthird : (UInt8.ofNat (v / 64 % 64 + 128)).toNat = v / 64 % 64 + 128 := toNat_byte (by omega)
  have hlast : (UInt8.ofNat (v % 64 + 128)).toNat = v % 64 + 128 := toNat_byte (by omega)
  have hnumber : ((v / 262144 * 64 + (v / 4096 % 64 + 128 - 0x80)) * 64 +
      (v / 64 % 64 + 128 - 0x80)) * 64 + (v % 64 + 128 - 0x80) = v := by
    omega
  rw [List.foldl_cons, step_lead _ _ hlead, List.foldl_cons,
    step_inner _ _ _ _ _ _ _ (by rw [hsecond]; exact ⟨hlo, hhi⟩), List.foldl_cons, anyTail,
    step_inner _ _ _ _ _ _ _ (by rw [hthird]; simp; omega), List.foldl_cons,
    step_last _ _ _ _ _ (by rw [hlast]; simp; omega), hsecond, hthird, hlast, hnumber]
  rfl

/-- The bytes of one character, read where nothing is open, write it down and leave nothing open. -/
theorem foldl_step_utf8EncodeChar (chars : List Char) (c : Char) :
    (String.utf8EncodeChar c).foldl Decoding.step ⟨chars, none⟩ = ⟨c :: chars, none⟩ := by
  have hvalid := toNat_valid c
  have hchar : Char.ofNat c.val.toNat = c := Char.ofNat_toNat c
  unfold String.utf8EncodeChar
  simp only
  change c.val.toNat < _ ∨ _ < c.val.toNat ∧ c.val.toNat < _ at hvalid
  split_ifs with hone htwo hthree
  · have hlead : OpenChar.ofLead (UInt8.ofNat c.val.toNat) = some ⟨c.val.toNat, []⟩ := by
      rw [ofLead_eq, toNat_byte (by omega), if_pos (by omega)]
    rw [List.foldl_cons, Decoding.step]
    simp only [Decoding.lead, hlead, Decoding.settle, hchar]
    rfl
  · rw [foldl_step_two chars (by omega) (by omega), hchar]
  · rw [foldl_step_three chars (by omega) (by omega) (by omega), hchar]
  · rw [foldl_step_four chars (by omega) (by omega), hchar]

/-! ## Texts -/

theorem utf8_eq (s : String) : utf8 s = s.toList.flatMap String.utf8EncodeChar := by
  have hbytes : s.toUTF8 = s.toList.utf8Encode := by
    have hlist : String.ofList s.toList = s := String.ofList_toList
    rw [← String.toByteArray_ofList, hlist]
    rfl
  unfold utf8
  rw [hbytes, List.utf8Encode]
  simp

theorem foldl_step_utf8 (chars cs : List Char) :
    (cs.flatMap String.utf8EncodeChar).foldl Decoding.step ⟨chars, none⟩ =
      ⟨cs.reverse ++ chars, none⟩ := by
  induction cs generalizing chars with
  | nil => rfl
  | cons c rest ih =>
      rw [List.flatMap_cons, List.foldl_append, foldl_step_utf8EncodeChar, ih]
      simp

/-- The bytes of a text read as the text. -/
theorem decodeLossy_utf8 (s : String) : decodeLossy (utf8 s) = s := by
  unfold decodeLossy
  rw [utf8_eq, foldl_step_utf8]
  simp [Decoding.finish]

end Linkage.Text
