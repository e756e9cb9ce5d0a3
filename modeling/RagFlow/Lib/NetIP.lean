import Mathlib.Algebra.Group.Nat.Defs
import Mathlib.Data.List.Basic

/-!
# IP addresses

`net.IP` of Go and its predicates, and blocks of addresses in CIDR form.  Each predicate is the
membership in a list of blocks.
-/

namespace RagFlow.Lib.NetIP

structure IP where
  bytes : List UInt8
  length_eq : bytes.length = 4 ∨ bytes.length = 16
  deriving DecidableEq

def mappedStart : List UInt8 := List.replicate 10 0 ++ [0xff, 0xff]

theorem length_drop_mapped (ip : IP) (mapped : mappedStart.isPrefixOf ip.bytes) :
    (ip.bytes.drop 12).length = 4 := by
  have length_le : mappedStart.length ≤ ip.bytes.length :=
    (List.isPrefixOf_iff_prefix.mp mapped).length_le
  have length_mappedStart : mappedStart.length = 12 := rfl
  rw [List.length_drop]
  obtain length | length := ip.length_eq <;> omega

def IP.byte (ip : IP) (index : Nat) : UInt8 := ip.bytes.getD index 0

def IP.to4 (ip : IP) : Option IP :=
  if ip.bytes.length = 4 then some ip
  else if mapped : mappedStart.isPrefixOf ip.bytes then
    some ⟨ip.bytes.drop 12, .inl (length_drop_mapped ip mapped)⟩
  else none

def IP.isUnspecified (ip : IP) : Bool :=
  ip.to4.map IP.bytes = some [0, 0, 0, 0] || ip.bytes = List.replicate 16 0

def IP.isLoopback (ip : IP) : Bool :=
  match ip.to4 with
  | some ip4 => ip4.byte 0 = 127
  | none => ip.bytes = List.replicate 15 0 ++ [1]

def IP.isPrivate (ip : IP) : Bool :=
  match ip.to4 with
  | some ip4 =>
    ip4.byte 0 = 10 || (ip4.byte 0 = 172 && ip4.byte 1 &&& 0xf0 = 16) ||
      (ip4.byte 0 = 192 && ip4.byte 1 = 168)
  | none => ip.byte 0 &&& 0xfe = 0xfc

def IP.isMulticast (ip : IP) : Bool :=
  match ip.to4 with
  | some ip4 => ip4.byte 0 &&& 0xf0 = 0xe0
  | none => ip.byte 0 = 0xff

def IP.isInterfaceLocalMulticast (ip : IP) : Bool :=
  ip.bytes.length = 16 && ip.byte 0 = 0xff && ip.byte 1 &&& 0x0f = 0x01

def IP.isLinkLocalMulticast (ip : IP) : Bool :=
  match ip.to4 with
  | some ip4 => ip4.byte 0 = 224 && ip4.byte 1 = 0 && ip4.byte 2 = 0
  | none => ip.byte 0 = 0xff && ip.byte 1 &&& 0x0f = 0x02

def IP.isLinkLocalUnicast (ip : IP) : Bool :=
  match ip.to4 with
  | some ip4 => ip4.byte 0 = 169 && ip4.byte 1 = 254
  | none => ip.byte 0 = 0xfe && ip.byte 1 &&& 0xc0 = 0x80

/-- A byte whose first bits are ones, as in `net.CIDRMask`. -/
def mask (ones : Nat) : UInt8 := UInt8.ofNat (256 - 2 ^ (8 - min ones 8))

def agree : Nat → List UInt8 → List UInt8 → Bool
  | 0, _, _ => true
  | ones, left :: lefts, right :: rights =>
    right &&& mask ones = left && agree (ones - 8) lefts rights
  | _, _, _ => false

structure Block where
  width : Nat
  leading : List UInt8
  ones : Nat
  deriving DecidableEq

def Block.v4 (leading : List UInt8) (ones : Nat) : Block := ⟨4, leading, ones⟩

def Block.v6 (leading : List UInt8) (ones : Nat) : Block := ⟨16, leading, ones⟩

def Block.contains (block : Block) (ip : IP) : Bool :=
  (ip.to4.getD ip).bytes.length = block.width &&
    agree block.ones block.leading (ip.to4.getD ip).bytes

theorem IP.to4_eq_none {ip : IP} (none : ip.to4 = none) : ip.bytes.length = 16 := by
  unfold IP.to4 at none
  split at none
  · cases none
  · exact ip.length_eq.resolve_left ‹_›

theorem IP.length_of_to4 {ip ip4 : IP} (found : ip.to4 = some ip4) : ip4.bytes.length = 4 := by
  unfold IP.to4 at found
  split at found
  · cases found
    assumption
  · split at found
    · cases found
      exact length_drop_mapped ip ‹_›
    · cases found

theorem IP.to4_of_length {ip : IP} (length : ip.bytes.length = 4) : ip.to4 = some ip := by
  rw [IP.to4, if_pos length]

theorem to4_getD (ip : IP) : (ip.to4.getD ip).to4 = ip.to4 := by
  cases found : ip.to4 with
  | none => exact found
  | some ip4 => exact IP.to4_of_length (IP.length_of_to4 found)

@[simp] theorem and_full (byte : UInt8) : byte &&& 255 = byte := UInt8.and_neg_one

theorem and_mask_full (byte : UInt8) {ones : Nat} (full : 8 ≤ ones) : byte &&& mask ones = byte := by
  have isFull : mask ones = 255 := by simp [mask, full]
  rw [isFull, and_full]

theorem agree_cons {ones : Nat} (fixed : 0 < ones) (left right : UInt8) (lefts rights : List UInt8) :
    agree ones (left :: lefts) (right :: rights) =
      (right &&& mask ones = left && agree (ones - 8) lefts rights) := by
  cases ones with
  | zero => omega
  | succ ones => rfl

theorem agree_full : ∀ (lefts rights : List UInt8), lefts.length = rights.length →
    (agree (8 * lefts.length) lefts rights = true ↔ rights = lefts)
  | [], [], _ => by simp [agree]
  | left :: lefts, right :: rights, lengths => by
    have rest := agree_full lefts rights (Nat.succ.inj lengths)
    have ones : 8 * (left :: lefts).length = 8 * lefts.length + 8 := by
      rw [List.length_cons]
      omega
    rw [ones, agree_cons (by omega), and_mask_full right (by omega), Nat.add_sub_cancel]
    simp [rest]

theorem IP.bytes_of_to4 {ip ip4 : IP} (found : ip.to4 = some ip4) :
    ∃ b0 b1 b2 b3, ip4.bytes = [b0, b1, b2, b3] := by
  have length := IP.length_of_to4 found
  match bytes : ip4.bytes, length with
  | [b0, b1, b2, b3], _ => exact ⟨b0, b1, b2, b3, rfl⟩

theorem IP.bytes_of_none {ip : IP} (none : ip.to4 = none) :
    ∃ b0 b1 b2 b3 b4 b5 b6 b7 rest,
      ip.bytes = b0 :: b1 :: b2 :: b3 :: b4 :: b5 :: b6 :: b7 :: rest ∧ rest.length = 8 := by
  have length := IP.to4_eq_none none
  match bytes : ip.bytes, length with
  | b0 :: b1 :: b2 :: b3 :: b4 :: b5 :: b6 :: b7 :: rest, length =>
    exact ⟨b0, b1, b2, b3, b4, b5, b6, b7, rest, rfl, by simpa using length⟩

theorem contains_v4_of_some {ip ip4 : IP} (found : ip.to4 = some ip4) (leading : List UInt8)
    (ones : Nat) : (Block.v4 leading ones).contains ip = agree ones leading ip4.bytes := by
  simp [Block.contains, Block.v4, found, IP.length_of_to4 found]

theorem contains_v6_of_some {ip ip4 : IP} (found : ip.to4 = some ip4) (leading : List UInt8)
    (ones : Nat) : (Block.v6 leading ones).contains ip = false := by
  simp [Block.contains, Block.v6, found, IP.length_of_to4 found]

theorem contains_v4_of_none {ip : IP} (none : ip.to4 = none) (leading : List UInt8) (ones : Nat) :
    (Block.v4 leading ones).contains ip = false := by
  simp [Block.contains, Block.v4, none, IP.to4_eq_none none]

theorem contains_v6_of_none {ip : IP} (none : ip.to4 = none) (leading : List UInt8) (ones : Nat) :
    (Block.v6 leading ones).contains ip = agree ones leading ip.bytes := by
  simp [Block.contains, Block.v6, none, IP.to4_eq_none none]

theorem contains_single {ip : IP} (none : ip.to4 = none) (bytes : List UInt8)
    (length : bytes.length = 16) :
    (Block.v6 bytes 128).contains ip = true ↔ ip.bytes = bytes := by
  have agrees := agree_full bytes ip.bytes (length.trans (IP.to4_eq_none none).symm)
  rw [length] at agrees
  rw [contains_v6_of_none none, agrees]

def IsIn (blocks : List Block) (ip : IP) : Prop := ∃ block ∈ blocks, block.contains ip = true

instance (blocks : List Block) (ip : IP) : Decidable (IsIn blocks ip) :=
  inferInstanceAs (Decidable (∃ block ∈ blocks, block.contains ip = true))

theorem isIn_append {lefts rights : List Block} {ip : IP} :
    IsIn (lefts ++ rights) ip ↔ IsIn lefts ip ∨ IsIn rights ip := by
  simp [IsIn, or_and_right, exists_or]

def unspecifiedBlocks : List Block := [.v4 [0, 0, 0, 0] 32, .v6 (List.replicate 16 0) 128]

def loopbackBlocks : List Block := [.v4 [127] 8, .v6 (List.replicate 15 0 ++ [1]) 128]

def privateBlocks : List Block :=
  [.v4 [10] 8, .v4 [172, 16] 12, .v4 [192, 168] 16, .v6 [0xfc] 7]

def multicastBlocks : List Block := [.v4 [0xe0] 4, .v6 [0xff] 8]

def linkLocalBlocks : List Block := [.v4 [169, 254] 16, .v6 [0xfe, 0x80] 10]

theorem isUnspecified_iff (ip : IP) :
    ip.isUnspecified = true ↔ IsIn unspecifiedBlocks ip := by
  cases found : ip.to4 with
  | some ip4 =>
    obtain ⟨b0, b1, b2, b3, bytes⟩ := IP.bytes_of_to4 found
    have notZero : ip.bytes ≠ List.replicate 16 0 := by
      intro zero
      simp [IP.to4, zero, mappedStart] at found
    simp [IP.isUnspecified, IsIn, unspecifiedBlocks, contains_v4_of_some found,
      contains_v6_of_some found, found, bytes, agree, mask, - List.reduceReplicate, notZero]
  | none =>
    simp [IP.isUnspecified, IsIn, unspecifiedBlocks, contains_v4_of_none found,
      contains_single found, found]

theorem isLoopback_iff (ip : IP) : ip.isLoopback = true ↔ IsIn loopbackBlocks ip := by
  cases found : ip.to4 with
  | some ip4 =>
    obtain ⟨b0, b1, b2, b3, bytes⟩ := IP.bytes_of_to4 found
    simp [IP.isLoopback, IsIn, loopbackBlocks, contains_v4_of_some found,
      contains_v6_of_some found, found, bytes, IP.byte, agree, mask]
  | none =>
    simp [IP.isLoopback, IsIn, loopbackBlocks, contains_v4_of_none found,
      contains_single found, found]

theorem isPrivate_iff (ip : IP) : ip.isPrivate = true ↔ IsIn privateBlocks ip := by
  cases found : ip.to4 with
  | some ip4 =>
    obtain ⟨b0, b1, b2, b3, bytes⟩ := IP.bytes_of_to4 found
    simp [IP.isPrivate, IsIn, privateBlocks, contains_v4_of_some found,
      contains_v6_of_some found, found, bytes, IP.byte, agree, mask, or_assoc]
  | none =>
    obtain ⟨b0, b1, b2, b3, b4, b5, b6, b7, rest, bytes, -⟩ := IP.bytes_of_none found
    simp [IP.isPrivate, IsIn, privateBlocks, contains_v4_of_none found,
      contains_v6_of_none found, found, bytes, IP.byte, agree, mask]

theorem isMulticast_iff (ip : IP) : ip.isMulticast = true ↔ IsIn multicastBlocks ip := by
  cases found : ip.to4 with
  | some ip4 =>
    obtain ⟨b0, b1, b2, b3, bytes⟩ := IP.bytes_of_to4 found
    simp [IP.isMulticast, IsIn, multicastBlocks, contains_v4_of_some found,
      contains_v6_of_some found, found, bytes, IP.byte, agree, mask]
  | none =>
    obtain ⟨b0, b1, b2, b3, b4, b5, b6, b7, rest, bytes, -⟩ := IP.bytes_of_none found
    simp [IP.isMulticast, IsIn, multicastBlocks, contains_v4_of_none found,
      contains_v6_of_none found, found, bytes, IP.byte, agree, mask]

theorem isLinkLocalUnicast_iff (ip : IP) :
    ip.isLinkLocalUnicast = true ↔ IsIn linkLocalBlocks ip := by
  cases found : ip.to4 with
  | some ip4 =>
    obtain ⟨b0, b1, b2, b3, bytes⟩ := IP.bytes_of_to4 found
    simp [IP.isLinkLocalUnicast, IsIn, linkLocalBlocks, contains_v4_of_some found,
      contains_v6_of_some found, found, bytes, IP.byte, agree, mask]
  | none =>
    obtain ⟨b0, b1, b2, b3, b4, b5, b6, b7, rest, bytes, -⟩ := IP.bytes_of_none found
    simp [IP.isLinkLocalUnicast, IsIn, linkLocalBlocks, contains_v4_of_none found,
      contains_v6_of_none found, found, bytes, IP.byte, agree, mask]

theorem isMulticast_of_linkLocal {ip : IP} (linkLocal : ip.isLinkLocalMulticast = true) :
    ip.isMulticast = true := by
  cases found : ip.to4 with
  | some ip4 =>
    simp only [IP.isLinkLocalMulticast, found, Bool.and_eq_true, decide_eq_true_eq] at linkLocal
    simp only [IP.isMulticast, found, linkLocal.1.1]
    rfl
  | none =>
    simp only [IP.isLinkLocalMulticast, found, Bool.and_eq_true, decide_eq_true_eq] at linkLocal
    simp [IP.isMulticast, found, linkLocal.1]

theorem isMulticast_of_interfaceLocal {ip : IP}
    (interfaceLocal : ip.isInterfaceLocalMulticast = true) : ip.isMulticast = true := by
  simp only [IP.isInterfaceLocalMulticast, Bool.and_eq_true, decide_eq_true_eq] at interfaceLocal
  obtain ⟨⟨length, first⟩, -⟩ := interfaceLocal
  have none : ip.to4 = none := by
    -- an address that is written as a mapped one begins with a zero
    rw [IP.to4, if_neg (by omega), dif_neg]
    intro mapped
    obtain ⟨rest, bytes⟩ := List.isPrefixOf_iff_prefix.mp mapped
    simp [IP.byte, ← bytes, mappedStart, List.replicate] at first
  simp [IP.isMulticast, none, first]

end RagFlow.Lib.NetIP
