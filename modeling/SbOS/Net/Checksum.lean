import SbOS.Net.Datagrams

/-! The checksum of a TCP segment (`network/tcp.c`). The code adds up the pseudo header, the
header around its checksum field and the payload piece by piece, and folds the carry after
every word. -/
namespace SbOS.Net.Checksum
open Kernel

/-! ## The checksum of RFC 1071 -/

/-- The 16-bit words of some bytes in network order. A last odd byte is padded with a zero. -/
def words : List UInt8 → List Nat
  | a :: b :: rest => (a.toNat * 256 + b.toNat) :: words rest
  | [a] => [a.toNat * 256]
  | [] => []

/-- One's complement addition: a carry out of the 16 bits comes back in. -/
def onesAdd (a b : Nat) : Nat := if a + b < 2 ^ 16 then a + b else a + b + 1 - 2 ^ 16

/-- The one's complement sum of `sum` and the words of the bytes. -/
def onesSum (sum : Nat) (bytes : List UInt8) : Nat := (words bytes).foldl onesAdd sum

def internetChecksum (bytes : List UInt8) : Nat := 2 ^ 16 - 1 - onesSum 0 bytes

/-! ## The code -/

/-- A word is added and the carry folded. -/
def update (cksum word : Nat) : Nat :=
  wrap32 (cksum + word) / 2 ^ 16 + wrap32 (cksum + word) % 2 ^ 16

/-- The loop over the words. Only `tcp_checksum_final` can come to an odd byte. -/
def updateAll (cksum : Nat) : List UInt8 → Nat
  | a :: b :: rest => updateAll (update cksum (ntohs (a.toNat + b.toNat * 256))) rest
  | [a] => update cksum (a.toNat * 256)
  | [] => cksum

def tcpChecksumEvenUpdate (cksum : Nat) (buffer : List UInt8) : Except Stop Nat := do
  check (buffer.length % 2 = 0)
  return updateAll cksum buffer

def tcpChecksumFinal (cksum : Nat) (buffer : List UInt8) : Nat :=
  2 ^ 16 - 1 - updateAll cksum buffer % 2 ^ 16

/-- The upper half of byte 12 of the header. -/
def dataOffset (header : List UInt8) : Nat := (header.getD 12 0).toNat / 16

/-- A `u16` in memory. -/
def inMemory (n : Nat) : List UInt8 := [UInt8.ofNat n, UInt8.ofNat (n / 256)]

/-- `tcp_calculate_checksum`; an address is given by its four bytes in memory. -/
def tcpCalculateChecksum (srcIp dstIp : Vector UInt8 4) (payload header : List UInt8) (total : Int) :
    Except Stop Nat := do
  if total < dataOffset header + payload.length then return 0
  let tmp ← tcpChecksumEvenUpdate 0 srcIp.toList
  let tmp ← tcpChecksumEvenUpdate tmp dstIp.toList
  let tmp ← tcpChecksumEvenUpdate tmp [0, 6]
  let tmp ← tcpChecksumEvenUpdate tmp
    (inMemory (ntohs ((dataOffset header * 4 + payload.length) % 2 ^ 16)))
  let tmp ← tcpChecksumEvenUpdate tmp (← readBytes header 0 16)
  let tmp ← tcpChecksumEvenUpdate tmp (← readBytes header 18 (sub32 (dataOffset header * 4) 18))
  return ntohs (tcpChecksumFinal tmp payload)

/-! ## The code computes the checksum -/

theorem onesSum_append (even : before.length % 2 = 0) (sum : Nat) (after : List UInt8) :
    onesSum sum (before ++ after) = onesSum (onesSum sum before) after := by
  induction before using words.induct generalizing sum with
  | case1 a b rest ih =>
    rw [List.length_cons, List.length_cons] at even
    exact ih (by omega) _
  | case2 a => cases even
  | case3 => rfl

theorem update_eq (low : sum < 2 ^ 16) (word : w < 2 ^ 16) :
    update sum w = onesAdd sum w ∧ onesAdd sum w < 2 ^ 16 := by
  unfold update onesAdd wrap32
  split <;> omega

theorem updateAll_eq (low : sum < 2 ^ 16) (bytes : List UInt8) :
    updateAll sum bytes = onesSum sum bytes ∧ onesSum sum bytes < 2 ^ 16 := by
  induction bytes using words.induct generalizing sum with
  | case1 a b rest ih =>
    have small := a.toNat_lt
    have small' := b.toNat_lt
    have word : ntohs (a.toNat + b.toNat * 256) = a.toNat * 256 + b.toNat := by
      unfold ntohs
      omega
    obtain ⟨same, bound⟩ := update_eq low (show a.toNat * 256 + b.toNat < 2 ^ 16 by omega)
    unfold updateAll
    rw [word, same]
    exact ih bound
  | case2 a =>
    have small := a.toNat_lt
    exact update_eq low (by omega)
  | case3 => exact ⟨rfl, low⟩

section
variable {before : List UInt8} (even : before.length % 2 = 0)
include even

/-- A piece is added to the sum of the pieces before it. -/
theorem tcpChecksumEvenUpdate_eq (even' : piece.length % 2 = 0) :
    tcpChecksumEvenUpdate (onesSum 0 before) piece = .ok (onesSum 0 (before ++ piece)) := by
  have low := (updateAll_eq (by decide : 0 < 2 ^ 16) before).2
  unfold tcpChecksumEvenUpdate
  rw [check_true even', ok_then, (updateAll_eq low piece).1, onesSum_append even]
  rfl

theorem tcpChecksumFinal_eq (payload : List UInt8) :
    tcpChecksumFinal (onesSum 0 before) payload = internetChecksum (before ++ payload) := by
  have low := (updateAll_eq (by decide : 0 < 2 ^ 16) before).2
  obtain ⟨same, low'⟩ := updateAll_eq low payload
  unfold tcpChecksumFinal internetChecksum
  rw [same, Nat.mod_eq_of_lt low', onesSum_append even]

/-- A checksum field that is taken as zero makes no difference. -/
theorem onesSum_zeros : onesSum 0 (before ++ [0, 0]) = onesSum 0 before := by
  have low := (updateAll_eq (by decide : 0 < 2 ^ 16) before).2
  rw [onesSum_append even]
  generalize onesSum 0 before = sum at low ⊢
  simp only [onesSum, words, onesAdd, List.foldl_cons, List.foldl_nil]
  exact if_pos low

end

theorem ntohs_bytes (small : n < 2 ^ 16) :
    inMemory (ntohs n) = [UInt8.ofNat (n / 256), UInt8.ofNat n] := by
  have swapped : ntohs n = n % 256 * 256 + n / 256 := by
    unfold ntohs
    omega
  have high : ntohs n / 256 = n % 2 ^ 8 := by omega
  rw [inMemory, high, swapped, UInt8.ofNat_mod_size]
  simp [UInt8.ofNat_add, UInt8.ofNat_mul]

/-- What the checksum is taken of: the pseudo header, the header with its checksum taken as
zero, and the payload. -/
def covered (srcIp dstIp : Vector UInt8 4) (payload header : List UInt8) : List UInt8 :=
  let length := header.length + payload.length
  srcIp.toList ++ dstIp.toList ++ [0, 6] ++ [UInt8.ofNat (length / 256), UInt8.ofNat length] ++
    header.take 16 ++ [0, 0] ++ header.drop 18 ++ payload

theorem checksum_is_standard (srcIp dstIp : Vector UInt8 4) (payload header : List UInt8)
    (total : Int) (least : 5 ≤ dataOffset header) (complete : header.length = dataOffset header * 4)
    (short : header.length + payload.length ≤ 65535)
    (fits : header.length + payload.length ≤ total) :
    tcpCalculateChecksum srcIp dstIp payload header total =
      .ok (ntohs (internetChecksum (covered srcIp dstIp payload header))) := by
  have first : tcpChecksumEvenUpdate 0 srcIp.toList = .ok (onesSum 0 srcIp.toList) :=
    @tcpChecksumEvenUpdate_eq [] rfl _ (by simp)
  have behind : sub32 header.length 18 = (header.drop 18).length :=
    (sub32_eq (by omega) (by omega)).trans List.length_drop.symm
  have front : (header.take 16).length = 16 := List.length_take_of_le (by omega)
  unfold tcpCalculateChecksum covered
  rw [if_neg (by omega), ← complete, Nat.mod_eq_of_lt (by omega), ntohs_bytes (by omega), behind,
    readBytes_inside (by omega), readBytes_inside (by rw [List.length_drop]; omega), List.drop_zero,
    List.take_length]
  rw [first, ok_then, tcpChecksumEvenUpdate_eq (by simp) (by simp), ok_then,
    tcpChecksumEvenUpdate_eq (by simp) rfl, ok_then, tcpChecksumEvenUpdate_eq (by simp) (by simp),
    ok_then, ok_then, tcpChecksumEvenUpdate_eq (by simp) (by omega), ok_then, ok_then]
  rw [← onesSum_zeros (by simp; omega), tcpChecksumEvenUpdate_eq (by simp; omega) (by simp; omega),
    ok_then, tcpChecksumFinal_eq (by simp; omega)]
  rfl

/-- A segment with one byte of payload. -/
theorem checksum_of_one_byte :
    let header := [4, 210, 0, 80, 0, 0, 0, 1, 0, 0, 0, 0, 0x50, 24, 32, 0, 7, 7, 0, 0]
    tcpCalculateChecksum #v[10, 0, 0, 2] #v[10, 0, 0, 1] [65] header 21 =
      .ok (ntohs (internetChecksum (covered #v[10, 0, 0, 2] #v[10, 0, 0, 1] [65] header))) :=
  checksum_is_standard _ _ _ _ _ (by decide) (by decide) (by decide) (by decide)

end SbOS.Net.Checksum
