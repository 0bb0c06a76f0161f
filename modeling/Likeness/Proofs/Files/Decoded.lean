import Likeness.Files.Path
import Mathlib.Tactic.SplitIfs

namespace Likeness.Files

namespace Partial

-- What is read of bytes after some of a character.
def resume (p : Partial) (rest : Bytes) : List Char := p.settle.1 ++ decode p.settle.2 rest

theorem resume_nil (bits : Nat) (rest : Bytes) :
    resume ⟨bits, []⟩ rest = Char.ofNat bits :: decode none rest := rfl

theorem resume_cons {bits low high byte : Nat} {due : List (Nat × Nat)} (hbyte : byte < 256)
    (hlow : low ≤ byte) (hhigh : byte ≤ high) (rest : Bytes) :
    resume ⟨bits, (low, high) :: due⟩ (UInt8.ofNat byte :: rest) =
      resume ⟨bits * 64 + byte % 64, due⟩ rest := by
  have hread : (UInt8.ofNat byte).toNat = byte := UInt8.toNat_ofNat_of_lt' hbyte
  have hadd : (⟨bits, (low, high) :: due⟩ : Partial).add? byte =
      some ⟨bits * 64 + byte % 64, due⟩ := by
    simp [add?, hlow, hhigh]
  have hstep : readByte (some ⟨bits, (low, high) :: due⟩) byte =
      settle ⟨bits * 64 + byte % 64, due⟩ := by
    rw [readByte, Option.bind_some, hadd]
  change decode (some ⟨bits, (low, high) :: due⟩) _ = _
  rw [decode, hread, hstep]
  rfl

theorem decode_begin {byte : Nat} {p : Partial} (hbyte : byte < 256) (h : begin? byte = some p)
    (rest : Bytes) : decode none (UInt8.ofNat byte :: rest) = p.resume rest := by
  have hread : (UInt8.ofNat byte).toNat = byte := UInt8.toNat_ofNat_of_lt' hbyte
  have hstep : readByte none byte = p.settle := by
    rw [readByte, Option.bind_none, h]
    rfl
  rw [decode, hread, hstep, resume]

end Partial

open Partial

-- The number of a character is put together of what its bytes hold.
theorem decode_two {n : Nat} (hlow : 0x80 ≤ n) (hhigh : n < 0x800) (rest : Bytes) :
    decode none (UInt8.ofNat (n / 64 % 32 + 0xC0) :: UInt8.ofNat (n % 64 + 0x80) :: rest) =
      Char.ofNat n :: decode none rest := by
  have hbegin : begin? (n / 64 % 32 + 0xC0) =
      some ⟨(n / 64 % 32 + 0xC0) % 32, [anyTail]⟩ := by
    rw [begin?, if_neg (by omega), if_neg (by omega), if_pos (by omega)]
  have hnumber : (n / 64 % 32 + 0xC0) % 32 * 64 + (n % 64 + 0x80) % 64 = n := by omega
  rw [decode_begin (by omega) hbegin, anyTail,
    resume_cons (by omega) (by omega) (by omega), hnumber, resume_nil]

theorem decode_three {n : Nat} (hlow : 0x800 ≤ n) (hhigh : n < 0x10000)
    (hvalid : n < 0xD800 ∨ 0xDFFF < n) (rest : Bytes) :
    decode none (UInt8.ofNat (n / 4096 % 16 + 0xE0) :: UInt8.ofNat (n / 64 % 64 + 0x80) ::
      UInt8.ofNat (n % 64 + 0x80) :: rest) = Char.ofNat n :: decode none rest := by
  have hbegin : begin? (n / 4096 % 16 + 0xE0) = some ⟨(n / 4096 % 16 + 0xE0) % 16,
      [(if n / 4096 % 16 + 0xE0 = 0xE0 then 0xA0 else 0x80,
        if n / 4096 % 16 + 0xE0 = 0xED then 0x9F else 0xBF), anyTail]⟩ := by
    rw [begin?, if_neg (by omega), if_neg (by omega), if_neg (by omega), if_pos (by omega)]
  have hnumber : ((n / 4096 % 16 + 0xE0) % 16 * 64 + (n / 64 % 64 + 0x80) % 64) * 64 +
      (n % 64 + 0x80) % 64 = n := by omega
  rw [decode_begin (by omega) hbegin, anyTail,
    resume_cons (by omega) (by split <;> omega) (by split <;> omega),
    resume_cons (by omega) (by omega) (by omega), hnumber, resume_nil]

theorem decode_four {n : Nat} (hlow : 0x10000 ≤ n) (hhigh : n < 0x110000) (rest : Bytes) :
    decode none (UInt8.ofNat (n / 262144 % 8 + 0xF0) :: UInt8.ofNat (n / 4096 % 64 + 0x80) ::
      UInt8.ofNat (n / 64 % 64 + 0x80) :: UInt8.ofNat (n % 64 + 0x80) :: rest) =
      Char.ofNat n :: decode none rest := by
  have hbegin : begin? (n / 262144 % 8 + 0xF0) = some ⟨(n / 262144 % 8 + 0xF0) % 8,
      [(if n / 262144 % 8 + 0xF0 = 0xF0 then 0x90 else 0x80,
        if n / 262144 % 8 + 0xF0 = 0xF4 then 0x8F else 0xBF), anyTail, anyTail]⟩ := by
    rw [begin?, if_neg (by omega), if_neg (by omega), if_neg (by omega), if_neg (by omega),
      if_pos (by omega)]
  have hnumber : (((n / 262144 % 8 + 0xF0) % 8 * 64 + (n / 4096 % 64 + 0x80) % 64) * 64 +
      (n / 64 % 64 + 0x80) % 64) * 64 + (n % 64 + 0x80) % 64 = n := by omega
  rw [decode_begin (by omega) hbegin, anyTail,
    resume_cons (by omega) (by split <;> omega) (by split <;> omega),
    resume_cons (by omega) (by omega) (by omega), resume_cons (by omega) (by omega) (by omega),
    hnumber, resume_nil]

-- A character that is written as bytes is read from them.
theorem decode_utf8EncodeChar (c : Char) (rest : Bytes) :
    decode none (String.utf8EncodeChar c ++ rest) = c :: decode none rest := by
  have hvalid : c.val.toNat < 0xD800 ∨ 0xDFFF < c.val.toNat ∧ c.val.toNat < 0x110000 := c.valid
  have hchar : Char.ofNat c.val.toNat = c := Char.ofNat_toNat c
  unfold String.utf8EncodeChar
  generalize c.val.toNat = n at *
  subst hchar
  dsimp only
  split_ifs with hone htwo hthree
  · rw [List.singleton_append, decode_begin (by omega) (by rw [begin?, if_pos (by omega)]),
      resume_nil]
  · exact decode_two (by omega) (by omega) rest
  · exact decode_three (by omega) (by omega) (by omega) rest
  · exact decode_four (by omega) (by omega) rest

theorem decode_bytesOf (text : String) : decode none (bytesOf text) = text.toList := by
  unfold bytesOf
  induction text.toList with
  | nil => rfl
  | cons c cs ih => rw [List.flatMap_cons, decode_utf8EncodeChar, ih]

-- A path that is a text is shown as it is.
@[simp] theorem Path.text_ofText (text : String) : (ofText text).text = text := by
  rw [Path.text, ofText, decode_bytesOf, String.ofList_toList]

end Likeness.Files
