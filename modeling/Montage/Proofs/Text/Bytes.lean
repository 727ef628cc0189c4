import Mathlib.Data.List.Basic
import Montage.Text.Bytes

/-!
Contract: what is shown of bytes that are a text.

Owns: the walk over the bytes of one character and of a whole text, and that a text is shown as it is.

Does **not** own: what is shown of bytes that are no text.
-/

set_option autoImplicit false

namespace Montage.Text.Utf8

def walk (state : State) (bytes : List UInt8) : State :=
  bytes.foldl (fun state byte => step state byte.toNat) state

theorem walk_append (state : State) (first second : List UInt8) :
    walk state (first ++ second) = walk (walk state first) second := List.foldl_append

/-! ## One character -/

section Steps

variable {done : List (Option Char)} {byte : Nat}

theorem step_two (low : 0xC2 ≤ byte) (high : byte < 0xE0) :
    step ⟨done, none⟩ byte = ⟨done, some ⟨1, 0x80, 0xBF, byte - 0xC0⟩⟩ := by
  rw [step, begin, if_neg (by omega), if_neg (by omega), if_pos high]

theorem step_three (low : 0xE0 ≤ byte) (high : byte < 0xF0) :
    step ⟨done, none⟩ byte =
      ⟨done, some ⟨2, if byte = 0xE0 then 0xA0 else 0x80, if byte = 0xED then 0x9F else 0xBF,
        byte - 0xE0⟩⟩ := by
  rw [step, begin, if_neg (by omega), if_neg (by omega), if_neg (by omega), if_pos high]

theorem step_four (low : 0xF0 ≤ byte) (high : byte < 0xF5) :
    step ⟨done, none⟩ byte =
      ⟨done, some ⟨3, if byte = 0xF0 then 0x90 else 0x80, if byte = 0xF4 then 0x8F else 0xBF,
        byte - 0xF0⟩⟩ := by
  rw [step, begin, if_neg (by omega), if_neg (by omega), if_neg (by omega), if_neg (by omega), if_pos high]

variable {part : Part}

/-- A byte that a character goes on with leaves one byte less to come. -/
theorem step_owing (low : part.low ≤ byte) (high : byte ≤ part.high) (more : 1 < part.owed) :
    step ⟨done, some part⟩ byte =
      ⟨done, some ⟨part.owed - 1, 0x80, 0xBF, part.value * 0x40 + (byte - 0x80)⟩⟩ := by
  simp only [step, if_pos (And.intro low high), if_neg (Nat.not_le.mpr more)]

/-- The last byte of a character completes it. -/
theorem step_complete (low : part.low ≤ byte) (high : byte ≤ part.high) (last : part.owed ≤ 1) :
    step ⟨done, some part⟩ byte =
      ⟨some (Char.ofNat (part.value * 0x40 + (byte - 0x80))) :: done, none⟩ := by
  simp only [step, if_pos (And.intro low high), if_pos last]

end Steps

section Widths

variable (done : List (Option Char)) {v : Nat}

theorem walk_one (high : v ≤ 0x7F) :
    walk ⟨done, none⟩ [UInt8.ofNat v] = ⟨some (Char.ofNat v) :: done, none⟩ := by
  have whole : v % 2 ^ 8 = v := by omega
  rw [walk, List.foldl_cons, List.foldl_nil, UInt8.toNat_ofNat', whole]
  simp only [step, begin, if_pos (show v < 0x80 by omega)]

theorem walk_two (low : 0x7F < v) (high : v ≤ 0x7FF) :
    walk ⟨done, none⟩ [UInt8.ofNat (v / 64 % 32 + 192), UInt8.ofNat (v % 64 + 128)] =
      ⟨some (Char.ofNat v) :: done, none⟩ := by
  have first : (v / 64 % 32 + 192) % 2 ^ 8 = v / 64 + 192 := by omega
  have second : (v % 64 + 128) % 2 ^ 8 = v % 64 + 128 := by omega
  simp only [walk, List.foldl_cons, List.foldl_nil, UInt8.toNat_ofNat', first, second]
  rw [step_two (by omega) (by omega), step_complete (by simp) (by simp only; omega) (by simp)]
  have value : (v / 64 + 192 - 0xC0) * 0x40 + (v % 64 + 128 - 0x80) = v := by omega
  rw [value]

theorem walk_three (low : 0x7FF < v) (high : v ≤ 0xFFFF) (valid : v < 0xD800 ∨ 0xDFFF < v) :
    walk ⟨done, none⟩
        [UInt8.ofNat (v / 4096 % 16 + 224), UInt8.ofNat (v / 64 % 64 + 128),
          UInt8.ofNat (v % 64 + 128)] =
      ⟨some (Char.ofNat v) :: done, none⟩ := by
  have first : (v / 4096 % 16 + 224) % 2 ^ 8 = v / 4096 + 224 := by omega
  have second : (v / 64 % 64 + 128) % 2 ^ 8 = v / 64 % 64 + 128 := by omega
  have third : (v % 64 + 128) % 2 ^ 8 = v % 64 + 128 := by omega
  simp only [walk, List.foldl_cons, List.foldl_nil, UInt8.toNat_ofNat', first, second, third]
  rw [step_three (by omega) (by omega),
    step_owing (by simp only; split <;> omega) (by simp only; split <;> omega) (by simp),
    step_complete (by simp) (by simp only; omega) (by simp)]
  have value : ((v / 4096 + 224 - 0xE0) * 0x40 + (v / 64 % 64 + 128 - 0x80)) * 0x40 +
      (v % 64 + 128 - 0x80) = v := by omega
  rw [value]

theorem walk_four (low : 0xFFFF < v) (valid : v < 0x110000) :
    walk ⟨done, none⟩
        [UInt8.ofNat (v / 262144 % 8 + 240), UInt8.ofNat (v / 4096 % 64 + 128),
          UInt8.ofNat (v / 64 % 64 + 128), UInt8.ofNat (v % 64 + 128)] =
      ⟨some (Char.ofNat v) :: done, none⟩ := by
  have first : (v / 262144 % 8 + 240) % 2 ^ 8 = v / 262144 + 240 := by omega
  have second : (v / 4096 % 64 + 128) % 2 ^ 8 = v / 4096 % 64 + 128 := by omega
  have third : (v / 64 % 64 + 128) % 2 ^ 8 = v / 64 % 64 + 128 := by omega
  have fourth : (v % 64 + 128) % 2 ^ 8 = v % 64 + 128 := by omega
  simp only [walk, List.foldl_cons, List.foldl_nil, UInt8.toNat_ofNat', first, second, third, fourth]
  rw [step_four (by omega) (by omega),
    step_owing (by simp only; split <;> omega) (by simp only; split <;> omega) (by simp),
    step_owing (by simp) (by simp only; omega) (by simp),
    step_complete (by simp) (by simp only; omega) (by simp)]
  have value : (((v / 262144 + 240 - 0xF0) * 0x40 + (v / 4096 % 64 + 128 - 0x80)) * 0x40 +
      (v / 64 % 64 + 128 - 0x80)) * 0x40 + (v % 64 + 128 - 0x80) = v := by omega
  rw [value]

end Widths

/-- The bytes of a character are read as this character, whatever was read before. -/
theorem walk_encodeChar (done : List (Option Char)) (c : Char) :
    walk ⟨done, none⟩ (String.utf8EncodeChar c) = ⟨some c :: done, none⟩ := by
  have valid : c.val.toNat < 0xD800 ∨ 0xDFFF < c.val.toNat ∧ c.val.toNat < 0x110000 := c.valid
  have isChar : Char.ofNat c.val.toNat = c := Char.ofNat_toNat c
  simp only [String.utf8EncodeChar]
  split_ifs with one two three
  · rw [walk_one done one, isChar]
  · rw [walk_two done (by omega) two, isChar]
  · rw [walk_three done (by omega) three (by omega), isChar]
  · rw [walk_four done (by omega) (by omega), isChar]

/-! ## Texts -/

theorem walk_flatMap_encodeChar (done : List (Option Char)) (cs : List Char) :
    walk ⟨done, none⟩ (cs.flatMap String.utf8EncodeChar) = ⟨(cs.map some).reverse ++ done, none⟩ := by
  induction cs generalizing done with
  | nil => rfl
  | cons c rest inductionHypothesis =>
      rw [List.flatMap_cons, walk_append, walk_encodeChar, inductionHypothesis]
      simp

theorem characters_toUTF8 (s : String) : characters s.toUTF8 = s.toList.map some := by
  have encoded : s.toUTF8.data.toList = s.toList.flatMap String.utf8EncodeChar := by
    conv_lhs => rw [← String.ofList_toList (s := s)]
    rw [String.toUTF8, String.toByteArray_ofList, List.utf8Encode, List.toList_data_toByteArray]
  have read : walk ⟨[], none⟩ s.toUTF8.data.toList = ⟨(s.toList.map some).reverse, none⟩ := by
    rw [encoded, walk_flatMap_encodeChar, List.append_nil]
  unfold characters
  rw [← walk, read]
  exact List.reverse_reverse _

/-- The bytes of a text are shown as this text. -/
theorem shown_toUTF8 (s : String) : shown s.toUTF8 = s := by
  rw [shown, characters_toUTF8, List.map_map]
  simp [Function.comp_def]

end Montage.Text.Utf8
