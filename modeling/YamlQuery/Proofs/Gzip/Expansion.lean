import Mathlib.Algebra.Group.Nat.Defs
import YamlQuery.Gzip.Basic

/-!
# Proofs.Gzip.Expansion — compressed bytes are expanded to themselves

Each reader undoes its writer whatever stands behind: `takeNat?` the bits of a number, `takeBytes?`
the bits of bytes, `readPlain?` a block of bytes as they are, and `readBlocks?` a sequence of these.
So `expand?` undoes `compress`.
-/

namespace YamlQuery.Gzip

variable {n x : Nat} {s : List Bool} {bytes rest : List UInt8} {out : Array UInt8}

/-! ### Bits -/

@[simp] theorem bits_nil : bits [] = [] := rfl

@[simp] theorem bits_cons (b : UInt8) (bs : List UInt8) :
    bits (b :: bs) = bitsOf 8 b.toNat ++ bits bs := rfl

@[simp] theorem bits_append (as bs : List UInt8) : bits (as ++ bs) = bits as ++ bits bs :=
  List.flatMap_append

@[simp] theorem length_bitsOf : ∀ n x : Nat, (bitsOf n x).length = n
  | 0, _ => rfl
  | n + 1, x => by simp [bitsOf, length_bitsOf n]

theorem length_bits (bs : List UInt8) : (bits bs).length = 8 * bs.length := by
  induction bs with
  | nil => rfl
  | cons b bs ih => simp [ih]; omega

theorem bitsOf_add : ∀ m n x : Nat, bitsOf (m + n) x = bitsOf m x ++ bitsOf n (x / 2 ^ m)
  | 0, n, x => by simp [bitsOf]
  | m + 1, n, x => by
    rw [Nat.add_right_comm, bitsOf, bitsOf, bitsOf_add m n, Nat.div_div_eq_div_mul, Nat.pow_succ',
      List.cons_append]

theorem bitsOf_mod : ∀ n x : Nat, bitsOf n (x % 2 ^ n) = bitsOf n x
  | 0, _ => rfl
  | n + 1, x => by
    rw [bitsOf, bitsOf, Nat.pow_succ', Nat.mod_mul_right_mod, Nat.mod_mul_right_div_self,
      bitsOf_mod n]

theorem takeNat?_bitsOf : ∀ (n x : Nat) (s : List Bool),
    takeNat? n (bitsOf n x ++ s) = some (x % 2 ^ n, s)
  | 0, x, s => by simp [bitsOf, takeNat?, Nat.mod_one]
  | n + 1, x, s => by
    have hlow : (x % 2 == 1).toNat = x % 2 := by
      rcases Nat.mod_two_eq_zero_or_one x with h | h <;> simp [h]
    rw [bitsOf, List.cons_append, takeNat?, takeNat?_bitsOf n, Option.map_some, hlow, Nat.pow_succ',
      Nat.mod_mul]

theorem bits_littleEndian : ∀ n x : Nat, bits (littleEndian n x) = bitsOf (8 * n) x
  | 0, _ => rfl
  | n + 1, x => by
    have hbyte : bitsOf 8 (UInt8.ofNat (x % 256)).toNat = bitsOf 8 x := by
      rw [UInt8.toNat_ofNat', Nat.mod_mod]
      exact bitsOf_mod 8 x
    rw [littleEndian, bits_cons, hbyte, bits_littleEndian n, Nat.mul_succ, Nat.add_comm]
    exact (bitsOf_add 8 (8 * n) x).symm

theorem takeNat?_littleEndian (hx : x < 2 ^ (8 * n)) (s : List Bool) :
    takeNat? (8 * n) (bits (littleEndian n x) ++ s) = some (x, s) := by
  rw [bits_littleEndian, takeNat?_bitsOf, Nat.mod_eq_of_lt hx]

theorem takeBytes?_bits : ∀ (bs : List UInt8) (s : List Bool),
    takeBytes? bs.length (bits bs ++ s) = some (bs, s)
  | [], _ => rfl
  | b :: bs, s => by
    have hb : b.toNat % 2 ^ 8 = b.toNat := Nat.mod_eq_of_lt b.toNat_lt
    simp only [List.length_cons, takeBytes?, bits_cons, List.append_assoc, takeNat?_bitsOf, hb,
      takeBytes?_bits bs, Option.map_some, UInt8.ofNat_toNat]

/-- Less than a byte before whole bytes is passed over. -/
theorem aligned_append_bits (hs : s.length < 8) (bs : List UInt8) :
    aligned (s ++ bits bs) = bits bs := by
  have hlength : (s ++ bits bs).length % 8 = s.length := by
    rw [List.length_append, length_bits]
    omega
  rw [aligned, hlength, List.drop_left]

theorem aligned_bits (bs : List UInt8) : aligned (bits bs) = bits bs :=
  aligned_append_bits (s := []) (by simp) bs

/-! ### Blocks -/

/-- A block of bytes as they are, which may be the last one. -/
def plainBlock (last : Bool) (bytes : List UInt8) : List UInt8 :=
  UInt8.ofNat last.toNat :: (littleEndian 2 bytes.length ++
    littleEndian 2 (0xFFFF - bytes.length) ++ bytes)

theorem plainBlocks_last (h : bytes.length ≤ 0xFFFF) (steps : Nat) :
    plainBlocks (steps + 1) bytes = plainBlock true bytes := by
  have hrest : bytes.drop 0xFFFF = [] := List.drop_eq_nil_iff.2 h
  have hblock : bytes.take 0xFFFF = bytes := List.take_of_length_le h
  simp only [plainBlocks, hrest, hblock, List.isEmpty_nil, if_true, List.append_nil]
  rfl

theorem plainBlocks_more (h : 0xFFFF < bytes.length) (steps : Nat) :
    plainBlocks (steps + 1) bytes =
      plainBlock false (bytes.take 0xFFFF) ++ plainBlocks steps (bytes.drop 0xFFFF) := by
  have hrest : (bytes.drop 0xFFFF).isEmpty = false := by
    rw [List.isEmpty_eq_false_iff, Ne, List.drop_eq_nil_iff]
    omega
  simp only [plainBlocks, hrest, if_neg Bool.false_ne_true]
  rfl

theorem length_le_plainBlocks : ∀ (steps : Nat) (bytes : List UInt8), bytes.length < steps →
    bytes.length ≤ (plainBlocks steps bytes).length
  | steps + 1, bytes, hsteps => by
    by_cases h : bytes.length ≤ 0xFFFF
    · rw [plainBlocks_last h, plainBlock]
      simp
      omega
    · have ih := length_le_plainBlocks steps (bytes.drop 0xFFFF) (by rw [List.length_drop]; omega)
      rw [plainBlocks_more (by omega), plainBlock]
      simp at ih ⊢
      omega

theorem readPlain?_block (hs : s.length < 8) (hbytes : bytes.length ≤ 0xFFFF) :
    readPlain? (s ++ bits (littleEndian 2 bytes.length ++
      littleEndian 2 (0xFFFF - bytes.length) ++ bytes ++ rest)) out =
      some (bits rest, out ++ bytes.toArray) := by
  have hfield (n : Nat) (hn : n ≤ 0xFFFF) (s : List Bool) :
      takeNat? 16 (bits (littleEndian 2 n) ++ s) = some (n, s) :=
    takeNat?_littleEndian (n := 2) (Nat.lt_succ_of_le hn) s
  rw [readPlain?, aligned_append_bits hs]
  simp only [bits_append, List.append_assoc, hfield _ hbytes, hfield _ (Nat.sub_le _ _),
    Option.bind_eq_bind, Option.bind_some, takeBytes?_bits]
  rw [if_pos (by omega)]
  rfl

theorem readBlocks?_plainBlock (h : bytes.length ≤ 0xFFFF) (fuel : Nat) (last : Bool)
    (rest : List UInt8) (out : Array UInt8) :
    readBlocks? (fuel + 1) (bits (plainBlock last bytes ++ rest)) out =
      if last then some (bits rest, out ++ bytes.toArray)
      else readBlocks? fuel (bits rest) (out ++ bytes.toArray) := by
  -- the bit that marks the last block, the two for its kind, and five that are passed over
  have hfirst : bitsOf 8 (UInt8.ofNat last.toNat).toNat =
      bitsOf 1 last.toNat ++ (bitsOf 2 0 ++ bitsOf 5 0) := by
    cases last <;> rfl
  have hlast : last.toNat % 2 ^ 1 = 1 ↔ last := by cases last <;> simp
  rw [readBlocks?, plainBlock, List.cons_append, bits_cons, hfirst]
  simp only [List.append_assoc (bitsOf _ _), takeNat?_bitsOf, Option.bind_eq_bind,
    Option.bind_some, Nat.zero_mod, hlast]
  rw [readPlain?_block (by decide) h]
  rfl

theorem readBlocks?_plainBlocks : ∀ (steps fuel : Nat) (bytes rest : List UInt8)
    (out : Array UInt8), bytes.length < steps → steps ≤ fuel →
    readBlocks? fuel (bits (plainBlocks steps bytes ++ rest)) out =
      some (bits rest, out ++ bytes.toArray)
  | steps + 1, fuel + 1, bytes, rest, out, hsteps, hfuel => by
    by_cases h : bytes.length ≤ 0xFFFF
    · rw [plainBlocks_last h, readBlocks?_plainBlock h, if_pos rfl]
    · have hblock : (bytes.take 0xFFFF).length ≤ 0xFFFF := List.length_take_le _ _
      have ih := readBlocks?_plainBlocks steps fuel (bytes.drop 0xFFFF) rest
        (out ++ (bytes.take 0xFFFF).toArray) (by rw [List.length_drop]; omega) (by omega)
      have hbytes : (bytes.take 0xFFFF).toArray ++ (bytes.drop 0xFFFF).toArray = bytes.toArray := by
        rw [List.append_toArray, List.take_append_drop]
      rw [plainBlocks_more (by omega), List.append_assoc, readBlocks?_plainBlock hblock,
        if_neg Bool.false_ne_true, ih, Array.append_assoc, hbytes]

/-! ### Files -/

theorem inflate?_plainBlocks (bytes rest : List UInt8) :
    inflate? (bits (plainBlocks (bytes.length + 1) bytes ++ rest)) =
      some (bytes.toArray, bits rest) := by
  have hlength := length_le_plainBlocks (bytes.length + 1) bytes (Nat.lt_succ_self _)
  rw [inflate?, readBlocks?_plainBlocks _ _ _ _ _ (Nat.lt_succ_self _)]
  · simp
  · rw [length_bits, List.length_append]
    omega

/-- The header that `compress` writes. -/
def plainHeader : List UInt8 := magic ++ [8, 0, 0, 0, 0, 0, 0, 0xFF]

theorem behindHeader?_plain (rest : List UInt8) :
    behindHeader? (plainHeader ++ rest) = some rest := by
  have htake : take? 10 (plainHeader ++ rest) = some (plainHeader, rest) := by
    rw [take?, if_pos (by simp [plainHeader, magic])]
    rfl
  rw [behindHeader?, htake]
  rfl

/-- **What is compressed is expanded to itself.** -/
theorem expand?_compress (bytes : List UInt8) : expand? (compress bytes) = some bytes := by
  have hcrc (s : List Bool) : takeNat? 32 (bits (littleEndian 4 (crc32 bytes).toNat) ++ s) =
      some ((crc32 bytes).toNat, s) := takeNat?_littleEndian (n := 4) (crc32 bytes).toNat_lt s
  have hlength : takeNat? 32 (bits (littleEndian 4 bytes.length)) =
      some (bytes.length % 2 ^ 32, []) := by
    have h := takeNat?_bitsOf 32 bytes.length []
    rwa [List.append_nil, ← bits_littleEndian 4] at h
  have hfile : compress bytes = plainHeader ++ (plainBlocks (bytes.length + 1) bytes ++
      (littleEndian 4 (crc32 bytes).toNat ++ littleEndian 4 bytes.length)) := by
    simp only [compress, plainHeader, List.append_assoc]
  rw [expand?, hfile, behindHeader?_plain]
  simp only [Option.bind_eq_bind, Option.bind_some]
  rw [inflate?_plainBlocks]
  simp only [Option.bind_some, aligned_bits]
  rw [bits_append, hcrc]
  simp only [Option.bind_some, hlength, Nat.reducePow, and_self, if_true]

/-! ### Texts are no gzip files -/

theorem magic_prefix_of_expand? {file : List UInt8} (h : expand? file = some bytes) :
    magic <+: file := by
  simp only [expand?, behindHeader?, Option.bind_eq_bind, Option.bind_eq_some_iff] at h
  obtain ⟨_, ⟨⟨start, _⟩, htake, hstart⟩, -⟩ := h
  rw [take?] at htake
  split at htake
  · cases htake
    split at hstart
    · next heq => exact List.IsPrefix.trans ⟨_, heq.symm⟩ (List.take_prefix 10 file)
    · cases hstart
  · cases htake

/-- A character of one byte has a byte below 128; any other starts with one from 192 on. -/
theorem exists_utf8EncodeChar (c : Char) : ∃ b bs, String.utf8EncodeChar c = b :: bs ∧
    (b.toNat < 128 ∧ bs = [] ∨ 192 ≤ b.toNat) := by
  have htwo (n : Nat) : 192 ≤ (UInt8.ofNat (n % 32 + 192)).toNat := by
    rw [UInt8.toNat_ofNat']
    omega
  have hthree (n : Nat) : 192 ≤ (UInt8.ofNat (n % 16 + 224)).toNat := by
    rw [UInt8.toNat_ofNat']
    omega
  have hfour (n : Nat) : 192 ≤ (UInt8.ofNat (n % 8 + 240)).toNat := by
    rw [UInt8.toNat_ofNat']
    omega
  show ∃ b bs, (if c.val.toNat ≤ 127 then _ else _) = b :: bs ∧ _
  split
  · next h =>
    refine ⟨_, _, rfl, .inl ⟨?_, rfl⟩⟩
    rw [UInt8.toNat_ofNat']
    omega
  · split
    · exact ⟨_, _, rfl, .inr (htwo _)⟩
    · split
      · exact ⟨_, _, rfl, .inr (hthree _)⟩
      · exact ⟨_, _, rfl, .inr (hfour _)⟩

/-- No text is a gzip file: its second byte would go on with a character that has ended. -/
theorem expand?_toUTF8 (text : String) : expand? text.toUTF8.data.toList = none := by
  have hbytes : text.toUTF8.data.toList = text.toList.flatMap String.utf8EncodeChar := by
    rw [String.toUTF8, ← String.ofList_toList (s := text), String.toByteArray_ofList,
      List.utf8Encode, List.toList_data_toByteArray, String.toList_ofList]
  rw [hbytes, Option.eq_none_iff_forall_not_mem]
  intro bytes hexpand
  have hmagic := magic_prefix_of_expand? hexpand
  cases htext : text.toList with
  | nil =>
    rw [htext] at hmagic
    cases List.prefix_nil.1 hmagic
  | cons c cs =>
    obtain ⟨b, bs, hc, hb⟩ := exists_utf8EncodeChar c
    rw [htext, List.flatMap_cons, hc, List.cons_append] at hmagic
    obtain ⟨rfl, hrest⟩ := List.cons_prefix_cons.1 hmagic
    obtain ⟨-, rfl⟩ := hb.resolve_right (by decide)
    cases cs with
    | nil => cases List.prefix_nil.1 hrest
    | cons d ds =>
      obtain ⟨b', bs', hd, hb'⟩ := exists_utf8EncodeChar d
      rw [List.nil_append, List.flatMap_cons, hd, List.cons_append] at hrest
      obtain ⟨rfl, -⟩ := List.cons_prefix_cons.1 hrest
      rcases hb' with ⟨hlow, -⟩ | hhigh
      · exact absurd hlow (by decide)
      · exact absurd hhigh (by decide)

end YamlQuery.Gzip
