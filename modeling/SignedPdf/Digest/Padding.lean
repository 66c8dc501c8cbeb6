import SignedPdf.Bytes

/-!
# Messages as blocks of words

A digest reads its message in blocks of sixteen words. The message is followed
by the octet `80`, zeros, and its length in bits, so that the last block is
full.

* `padded_length`: the padded message is a whole number of blocks.
-/

namespace SignedPdf.Digest

/-- The octets of a word. -/
def wordOctets {w : Nat} (x : BitVec w) : Bytes := Bytes.ofNat (w / 8) x.toNat

/-- The number of octets in a block of sixteen words of `w` bits. -/
def blockSize (w : Nat) : Nat := 2 * w

/-- How many zeros stand between the octet `80` and the length. -/
def zeroCount (w length : Nat) : Nat :=
  (blockSize w - (length + 1 + w / 4) % blockSize w) % blockSize w

/-- The message with its padding; the length takes two words. -/
def padded (w : Nat) (message : Bytes) : Bytes :=
  message ++ 0x80 :: (List.replicate (zeroCount w message.length) 0 ++
    Bytes.ofNat (w / 4) (message.length * 8))

/-- The padded message is a whole number of blocks. -/
theorem padded_length {w : Nat} (hw : 0 < w) (message : Bytes) :
    blockSize w ∣ (padded w message).length := by
  have hlen : (padded w message).length =
      message.length + 1 + w / 4 + zeroCount w message.length := by
    simp only [padded, List.length_append, List.length_cons, List.length_replicate,
      Bytes.length_ofNat]
    omega
  rw [hlen, zeroCount]
  have hpos : 0 < blockSize w := by
    unfold blockSize
    omega
  generalize message.length + 1 + w / 4 = n
  apply Nat.dvd_of_mod_eq_zero
  have hlt := Nat.mod_lt n hpos
  rcases Nat.eq_zero_or_pos (n % blockSize w) with h | h
  · simp [h]
  · have hm : (blockSize w - n % blockSize w) % blockSize w = blockSize w - n % blockSize w :=
      Nat.mod_eq_of_lt (by omega)
    rw [hm, Nat.add_mod, hm, Nat.add_sub_cancel' (by omega), Nat.mod_self]

/-- Cuts octets into words of `w` bits, at most `left` of them. -/
def wordsFrom (w : Nat) : (left : Nat) → Bytes → List (BitVec w)
  | 0, _ => []
  | left + 1, bs =>
    BitVec.ofNat w (Bytes.toNat (bs.take (w / 8))) :: wordsFrom w left (bs.drop (w / 8))

/-- Cuts octets into blocks, at most `left` of them. -/
def blocksFrom (w : Nat) : (left : Nat) → Bytes → List (List (BitVec w))
  | 0, _ => []
  | left + 1, bs => wordsFrom w 16 bs :: blocksFrom w left (bs.drop (blockSize w))

/-- The blocks of the padded message. -/
def blocks (w : Nat) (message : Bytes) : List (List (BitVec w)) :=
  let octets := padded w message
  blocksFrom w (octets.length / blockSize w) octets

end SignedPdf.Digest
