import Mathlib.Algebra.Group.Nat.Defs

/-!
# SHA-1

The digest of a list of bytes, as a number of 160 bits.
-/

namespace RagFlow.Lib.Sha1

structure Digest where
  a : BitVec 32
  b : BitVec 32
  c : BitVec 32
  d : BitVec 32
  e : BitVec 32

def initial : Digest where
  a := 0x67452301
  b := 0xEFCDAB89
  c := 0x98BADCFE
  d := 0x10325476
  e := 0xC3D2E1F0

def mix (round : Nat) (b c d : BitVec 32) : BitVec 32 × BitVec 32 :=
  if round < 20 then ((b &&& c) ||| (~~~b &&& d), 0x5A827999)
  else if round < 40 then (b ^^^ c ^^^ d, 0x6ED9EBA1)
  else if round < 60 then ((b &&& c) ||| (b &&& d) ||| (c &&& d), 0x8F1BBCDC)
  else (b ^^^ c ^^^ d, 0xCA62C1D6)

def nextWord (words : List (BitVec 32)) : BitVec 32 :=
  (words.getD 13 0 ^^^ words.getD 8 0 ^^^ words.getD 2 0 ^^^ words.getD 0 0).rotateLeft 1

/-- The rounds from `round` on, with the words of the schedule that come next. -/
def rounds : (left round : Nat) → List (BitVec 32) → Digest → Digest
  | 0, _, _, digest => digest
  | left + 1, round, words, digest =>
    let mixed := mix round digest.b digest.c digest.d
    rounds left (round + 1) (words.tail ++ [nextWord words])
      { a := digest.a.rotateLeft 5 + mixed.1 + digest.e + mixed.2 + words.getD 0 0
        b := digest.a
        c := digest.b.rotateLeft 30
        d := digest.c
        e := digest.d }

def addBlock (digest : Digest) (words : List (BitVec 32)) : Digest :=
  let mixed := rounds 80 0 words digest
  { a := digest.a + mixed.a
    b := digest.b + mixed.b
    c := digest.c + mixed.c
    d := digest.d + mixed.d
    e := digest.e + mixed.e }

def bigEndian : (count value : Nat) → List Nat
  | 0, _ => []
  | count + 1, value => bigEndian count (value / 256) ++ [value % 256]

def number (bytes : List Nat) : Nat := bytes.foldl (fun value byte => value * 256 + byte) 0

def pad (bytes : List Nat) : List Nat :=
  bytes ++ 0x80 :: List.replicate ((119 - bytes.length % 64) % 64) 0 ++
    bigEndian 8 (8 * bytes.length)

def wordsOf (bytes : List Nat) : List (BitVec 32) :=
  (List.range (bytes.length / 4)).map fun index =>
    BitVec.ofNat 32 (number ((bytes.drop (4 * index)).take 4))

def blocksOf (words : List (BitVec 32)) : List (List (BitVec 32)) :=
  (List.range (words.length / 16)).map fun index => (words.drop (16 * index)).take 16

def sha1 (bytes : List Nat) : Nat :=
  let digest := (blocksOf (wordsOf (pad bytes))).foldl addBlock initial
  [digest.a, digest.b, digest.c, digest.d, digest.e].foldl
    (fun value word => value * 2 ^ 32 + word.toNat) 0

/-- The digest of "abc". -/
example : sha1 [0x61, 0x62, 0x63] = 0xA9993E364706816ABA3E25717850C26C9CD0D89D := by decide +kernel

end RagFlow.Lib.Sha1
