import CaskLint.Text.System
import Mathlib.Data.List.Basic

/-!
# What is readable is shown as it is

  A string of the system is shown by looking for characters among its bytes. The form of a
  character is found as that character, whatever stands behind it (**`showBytes_character`**). So
  a text that goes on with bytes of another kind is shown up to there as it is
  (**`showBytes_text_append`**).

  There is a case for each length of a character. The bounds of the second byte leave out forms
  that are longer than need be, and the numbers of surrogates; a character has neither.
-/

namespace CaskLint

/-! ## Bytes by their numbers -/

theorem toNat_byte {n : Nat} (h : n < 256) : (UInt8.ofNat n).toNat = n :=
  UInt8.toNat_ofNat_of_lt' h

theorem bytesAfter?_ofNat {n : Nat} (h : n < 256) :
    bytesAfter? (.ofNat n) =
      if n ≤ 127 then some 0
      else if 194 ≤ n ∧ n ≤ 223 then some 1
      else if 224 ≤ n ∧ n ≤ 239 then some 2
      else if 240 ≤ n ∧ n ≤ 244 then some 3
      else none := by
  simp only [bytesAfter?, UInt8.le_iff_toNat_le, toNat_byte h]
  rfl

/-- A second byte is within the bounds that the first one sets. -/
theorem secondBounds_ofNat {n m : Nat} (hn : n < 256) (hlow : 128 ≤ m) (hhigh : m ≤ 191)
    (h224 : n = 224 → 160 ≤ m) (h237 : n = 237 → m ≤ 159) (h240 : n = 240 → 144 ≤ m)
    (h244 : n = 244 → m ≤ 143) :
    (secondBounds (.ofNat n)).1 ≤ .ofNat m ∧ .ofNat m ≤ (secondBounds (.ofNat n)).2 := by
  have hfirst : ∀ k, k < 256 → (UInt8.ofNat n = .ofNat k ↔ n = k) := by
    intro k hk
    rw [← UInt8.toNat_inj, toNat_byte hn, toNat_byte hk]
  rw [UInt8.le_iff_toNat_le, UInt8.le_iff_toNat_le, toNat_byte (by omega), secondBounds]
  split
  case isTrue h => exact ⟨h224 ((hfirst 224 (by decide)).mp h), hhigh⟩
  split
  case isTrue h => exact ⟨hlow, h237 ((hfirst 237 (by decide)).mp h)⟩
  split
  case isTrue h => exact ⟨h240 ((hfirst 240 (by decide)).mp h), hhigh⟩
  split
  case isTrue h => exact ⟨hlow, h244 ((hfirst 244 (by decide)).mp h)⟩
  exact ⟨hlow, hhigh⟩

/-! ## One character -/

theorem continuing_cons {low high b : UInt8} (h : low ≤ b ∧ b ≤ high) (missing : Nat)
    (bs : List UInt8) :
    continuing low high (missing + 1) (b :: bs) = b :: continuing 0x80 0xBF missing bs :=
  if_pos h

/-- The bytes after the second one hold six bits each, and any such bits will do. -/
theorem continuing_ofNat {n : Nat} (h : n < 64) (missing : Nat) (bs : List UInt8) :
    continuing 0x80 0xBF (missing + 1) (.ofNat (n + 128) :: bs) =
      .ofNat (n + 128) :: continuing 0x80 0xBF missing bs := by
  refine continuing_cons ⟨?_, ?_⟩ missing bs
  · rw [UInt8.le_iff_toNat_le, toNat_byte (by omega)]
    exact Nat.le_add_left _ _
  · rw [UInt8.le_iff_toNat_le, toNat_byte (by omega)]
    show n + 128 ≤ 191
    omega

/-- A first byte and as many more as it asks for make one character. -/
theorem showBytes_cons {first : UInt8} {more rest : List UInt8}
    (hafter : bytesAfter? first = some more.length)
    (hmore : continuing (secondBounds first).1 (secondBounds first).2 more.length (more ++ rest) =
      more) :
    showBytes (first :: (more ++ rest)) = characterOf first more :: showBytes rest := by
  rw [showBytes, hafter]
  dsimp only
  rw [hmore, if_pos rfl, List.drop_left]

/-- **The form of a character is shown as that character.** -/
theorem showBytes_character (c : Char) (rest : List UInt8) :
    showBytes (String.utf8EncodeChar c ++ rest) = c :: showBytes rest := by
  have hvalid : c.val.toNat < 55296 ∨ 57343 < c.val.toNat ∧ c.val.toNat < 1114112 := c.valid
  have hcharacter : Char.ofNat c.val.toNat = c := c.ofNat_toNat
  have hbits : ∀ n, n % 64 < 64 := fun n => Nat.mod_lt n (by decide)
  rw [String.utf8EncodeChar]
  generalize c.val.toNat = v at hvalid hcharacter ⊢
  split
  · -- one byte
    show showBytes (_ :: ([] ++ rest)) = _
    rw [showBytes_cons, characterOf, toNat_byte (by omega), hcharacter]
    · rw [bytesAfter?_ofNat (by omega), if_pos (by omega)]
      rfl
    · rfl
  split
  · -- two bytes, the first one from 194 on
    show showBytes (_ :: ([_] ++ rest)) = _
    rw [showBytes_cons, characterOf]
    · rw [← hcharacter, List.foldl_cons, List.foldl_nil, toNat_byte (by omega),
        toNat_byte (by omega)]
      refine congrArg (fun n => Char.ofNat n :: _) ?_
      show (v / 64 % 32 + 192) % 32 * 64 + (v % 64 + 128) % 64 = v
      omega
    · rw [bytesAfter?_ofNat (by omega), if_neg (by omega), if_pos (by omega)]
      rfl
    · have hbounds := secondBounds_ofNat (n := v / 64 % 32 + 192) (m := v % 64 + 128)
        (by omega) (by omega) (by omega) (by omega) (by omega) (by omega) (by omega)
      exact continuing_cons hbounds _ _
  split
  · -- three bytes
    show showBytes (_ :: ([_, _] ++ rest)) = _
    rw [showBytes_cons, characterOf]
    · rw [← hcharacter, List.foldl_cons, List.foldl_cons, List.foldl_nil, toNat_byte (by omega),
        toNat_byte (by omega), toNat_byte (by omega)]
      refine congrArg (fun n => Char.ofNat n :: _) ?_
      show ((v / 4096 % 16 + 224) % 16 * 64 + (v / 64 % 64 + 128) % 64) * 64 +
        (v % 64 + 128) % 64 = v
      omega
    · rw [bytesAfter?_ofNat (by omega), if_neg (by omega), if_neg (by omega), if_pos (by omega)]
      rfl
    · have hbounds := secondBounds_ofNat (n := v / 4096 % 16 + 224) (m := v / 64 % 64 + 128)
        (by omega) (by omega) (by omega) (by omega) (by omega) (by omega) (by omega)
      refine (continuing_cons hbounds _ _).trans (congrArg _ ?_)
      exact continuing_ofNat (hbits v) _ _
  · -- four bytes
    show showBytes (_ :: ([_, _, _] ++ rest)) = _
    rw [showBytes_cons, characterOf]
    · rw [← hcharacter, List.foldl_cons, List.foldl_cons, List.foldl_cons, List.foldl_nil,
        toNat_byte (by omega), toNat_byte (by omega), toNat_byte (by omega),
        toNat_byte (by omega)]
      refine congrArg (fun n => Char.ofNat n :: _) ?_
      show (((v / 262144 % 8 + 240) % 8 * 64 + (v / 4096 % 64 + 128) % 64) * 64 +
        (v / 64 % 64 + 128) % 64) * 64 + (v % 64 + 128) % 64 = v
      omega
    · rw [bytesAfter?_ofNat (by omega), if_neg (by omega), if_neg (by omega), if_neg (by omega),
        if_pos (by omega)]
      rfl
    · have hbounds := secondBounds_ofNat (n := v / 262144 % 8 + 240)
        (m := v / 4096 % 64 + 128)
        (by omega) (by omega) (by omega) (by omega) (by omega) (by omega) (by omega)
      refine (continuing_cons hbounds _ _).trans (congrArg _ ?_)
      refine (continuing_ofNat (hbits (v / 64)) _ _).trans (congrArg _ ?_)
      exact continuing_ofNat (hbits v) _ _

/-! ## Texts -/

/-- The bytes of a text are those of its characters, one after the other. -/
theorem data_toUTF8 (source : String) :
    source.toUTF8.data.toList = source.toList.flatMap String.utf8EncodeChar := by
  conv => lhs; rw [← String.ofList_toList (s := source)]
  rw [String.toUTF8_eq_toByteArray, String.toByteArray_ofList, List.utf8Encode,
    List.data_toByteArray]

/-- **A text is shown as it is**, and what stands behind it as if it stood alone. -/
theorem showBytes_text_append (cs : List Char) (rest : List UInt8) :
    showBytes (cs.flatMap String.utf8EncodeChar ++ rest) = cs ++ showBytes rest := by
  induction cs with
  | nil => rfl
  | cons c cs ih =>
      rw [List.flatMap_cons, List.append_assoc, showBytes_character, ih, List.cons_append]

/-- There is one way to show a string, be it a text or not: by its bytes. -/
theorem SystemString.display_eq (t : SystemString) :
    t.display = String.ofList (showBytes t.toBytes.data.toList) := by
  cases t with
  | bytes content invalid => rfl
  | text s =>
      have hbytes := showBytes_text_append s.toList []
      rw [List.append_nil, ← data_toUTF8, showBytes, List.append_nil] at hbytes
      rw [toBytes, hbytes, String.ofList_toList]
      rfl

end CaskLint
