import CheckRealtime.Blocks
import CheckRealtime.Util
/-!
# Md5 — `md5.c` and the reading loop of `get_md5sum`

`md5_append` takes a message piece by piece: it counts the bits in two words, keeps what does not fill a block in `buf` and
folds `md5_process` over the blocks.  `Holds` says what a state stands for, the bytes so far; from it `md5_finish` gives the
digest of those bytes as RFC 1321 defines it, however they were cut (`md5Finish_eq`).  `md5_process` itself is its 64
numbered steps (`md5Process_eq_compress`).
-/
namespace CheckRealtime.Md5

/-! ## `md5_process` -/

structure Abcd where
  a : UInt32
  b : UInt32
  c : UInt32
  d : UInt32
deriving DecidableEq

def tMask : UInt32 := 0xffffffff

/-- `T1` to `T64`. -/
def table : List UInt32 :=
  [tMask ^^^ 0x28955b87, tMask ^^^ 0x173848a9, 0x242070db, tMask ^^^ 0x3e423111,
   tMask ^^^ 0x0a83f050, 0x4787c62a, tMask ^^^ 0x57cfb9ec, tMask ^^^ 0x02b96afe,
   0x698098d8, tMask ^^^ 0x74bb0850, tMask ^^^ 0x0000a44e, tMask ^^^ 0x76a32841,
   0x6b901122, tMask ^^^ 0x02678e6c, tMask ^^^ 0x5986bc71, 0x49b40821,
   tMask ^^^ 0x09e1da9d, tMask ^^^ 0x3fbf4cbf, 0x265e5a51, tMask ^^^ 0x16493855,
   tMask ^^^ 0x29d0efa2, 0x02441453, tMask ^^^ 0x275e197e, tMask ^^^ 0x182c0437,
   0x21e1cde6, tMask ^^^ 0x3cc8f829, tMask ^^^ 0x0b2af278, 0x455a14ed,
   tMask ^^^ 0x561c16fa, tMask ^^^ 0x03105c07, 0x676f02d9, tMask ^^^ 0x72d5b375,
   tMask ^^^ 0x0005c6bd, tMask ^^^ 0x788e097e, 0x6d9d6122, tMask ^^^ 0x021ac7f3,
   tMask ^^^ 0x5b4115bb, 0x4bdecfa9, tMask ^^^ 0x0944b49f, tMask ^^^ 0x4140438f,
   0x289b7ec6, tMask ^^^ 0x155ed805, tMask ^^^ 0x2b10cf7a, 0x04881d05,
   tMask ^^^ 0x262b2fc6, tMask ^^^ 0x1924661a, 0x1fa27cf8, tMask ^^^ 0x3b53a99a,
   tMask ^^^ 0x0bd6ddbb, 0x432aff97, tMask ^^^ 0x546bdc58, tMask ^^^ 0x036c5fc6,
   0x655b59c3, tMask ^^^ 0x70f3336d, tMask ^^^ 0x00100b82, tMask ^^^ 0x7a7ba22e,
   0x6fa87e4f, tMask ^^^ 0x01d3191f, tMask ^^^ 0x5cfebceb, 0x4e0811a1,
   tMask ^^^ 0x08ac817d, tMask ^^^ 0x42c50dca, 0x2ad7d2bb, tMask ^^^ 0x14792c6e]

/-- `Ti`, counted from 1. -/
def T (i : Nat) : UInt32 := table.getD (i - 1) 0

def rotateLeft (x n : UInt32) : UInt32 := (x <<< n) ||| (x >>> (32 - n))

def F (x y z : UInt32) : UInt32 := (x &&& y) ||| (~~~x &&& z)
def G (x y z : UInt32) : UInt32 := (x &&& z) ||| (y &&& ~~~z)
def H (x y z : UInt32) : UInt32 := x ^^^ y ^^^ z
def I (x y z : UInt32) : UInt32 := y ^^^ (x ||| ~~~z)

/-- The macro `SET`: what it assigns to the first of its registers. -/
def SET (f : UInt32 → UInt32 → UInt32 → UInt32) (a b c d x s t : UInt32) : UInt32 := rotateLeft (a + f b c d + x + t) s + b

section

variable (f : UInt32 → UInt32 → UInt32 → UInt32) (X : Nat → UInt32) (k : Nat) (s : UInt32) (i : Nat) (r : Abcd)

/-- `SET(a, b, c, d, k, s, Ti)`. -/
def setA : Abcd := { r with a := SET f r.a r.b r.c r.d (X k) s (T i) }
/-- `SET(d, a, b, c, k, s, Ti)`. -/
def setD : Abcd := { r with d := SET f r.d r.a r.b r.c (X k) s (T i) }
/-- `SET(c, d, a, b, k, s, Ti)`. -/
def setC : Abcd := { r with c := SET f r.c r.d r.a r.b (X k) s (T i) }
/-- `SET(b, c, d, a, k, s, Ti)`. -/
def setB : Abcd := { r with b := SET f r.b r.c r.d r.a (X k) s (T i) }

end

def round1 (X : Nat → UInt32) (r : Abcd) : Abcd := r
  |> setA F X  0 7 1  |> setD F X  1 12 2  |> setC F X  2 17 3  |> setB F X  3 22 4
  |> setA F X  4 7 5  |> setD F X  5 12 6  |> setC F X  6 17 7  |> setB F X  7 22 8
  |> setA F X  8 7 9  |> setD F X  9 12 10 |> setC F X 10 17 11 |> setB F X 11 22 12
  |> setA F X 12 7 13 |> setD F X 13 12 14 |> setC F X 14 17 15 |> setB F X 15 22 16

def round2 (X : Nat → UInt32) (r : Abcd) : Abcd := r
  |> setA G X  1 5 17 |> setD G X  6 9 18 |> setC G X 11 14 19 |> setB G X  0 20 20
  |> setA G X  5 5 21 |> setD G X 10 9 22 |> setC G X 15 14 23 |> setB G X  4 20 24
  |> setA G X  9 5 25 |> setD G X 14 9 26 |> setC G X  3 14 27 |> setB G X  8 20 28
  |> setA G X 13 5 29 |> setD G X  2 9 30 |> setC G X  7 14 31 |> setB G X 12 20 32

def round3 (X : Nat → UInt32) (r : Abcd) : Abcd := r
  |> setA H X  5 4 33 |> setD H X  8 11 34 |> setC H X 11 16 35 |> setB H X 14 23 36
  |> setA H X  1 4 37 |> setD H X  4 11 38 |> setC H X  7 16 39 |> setB H X 10 23 40
  |> setA H X 13 4 41 |> setD H X  0 11 42 |> setC H X  3 16 43 |> setB H X  6 23 44
  |> setA H X  9 4 45 |> setD H X 12 11 46 |> setC H X 15 16 47 |> setB H X  2 23 48

def round4 (X : Nat → UInt32) (r : Abcd) : Abcd := r
  |> setA I X  0 6 49 |> setD I X  7 10 50 |> setC I X 14 15 51 |> setB I X  5 21 52
  |> setA I X 12 6 53 |> setD I X  3 10 54 |> setC I X 10 15 55 |> setB I X  1 21 56
  |> setA I X  8 6 57 |> setD I X 15 10 58 |> setC I X  6 15 59 |> setB I X 13 21 60
  |> setA I X  4 6 61 |> setD I X 11 10 62 |> setC I X  2 15 63 |> setB I X  9 21 64

/-- `xp[0] + (xp[1] << 8) + (xp[2] << 16) + (xp[3] << 24)`. -/
def word (data : Str) (i : Nat) : UInt32 :=
  let xp := fun j => (data.getD (4 * i + j) 0).toUInt32
  xp 0 + (xp 1 <<< 8) + (xp 2 <<< 16) + (xp 3 <<< 24)

def md5Process (abcd : Abcd) (data : Str) : Abcd :=
  let r := abcd |> round1 (word data) |> round2 (word data) |> round3 (word data) |> round4 (word data)
  ⟨abcd.a + r.a, abcd.b + r.b, abcd.c + r.c, abcd.d + r.d⟩

/-! ## The state -/

/-- `md5_byte_t buf[64]`. -/
structure Block where
  bytes : Str
  len   : bytes.length = 64

/-- `memcpy(buf + offset, p, n)`; the program never writes past the end. -/
def Block.memcpy (buf : Block) (offset : Nat) (p : Str) : Block where
  bytes := (buf.bytes.take offset ++ p ++ buf.bytes.drop (offset + p.length)).take 64
  len   := by
    have hlen := buf.len
    simp only [List.length_take, List.length_append, List.length_drop]
    omega

/-- `md5_state_t`; `count` is the length in bits, the low word first. -/
structure Md5State where
  count0 : UInt32
  count1 : UInt32
  abcd   : Abcd
  buf    : Block

def initAbcd : Abcd := ⟨0x67452301, tMask ^^^ 0x10325476, tMask ^^^ 0x67452301, 0x10325476⟩

/-- `buf` keeps what is on the stack. -/
def md5Init (pms : Md5State) : Md5State := { pms with count0 := 0, count1 := 0, abcd := initAbcd }

/-- The loop over the full blocks and the copy of the partial one. -/
def processFull (pms : Md5State) (p : Str) : Md5State :=
  let (abcd, left) := Blocks.absorb 64 md5Process pms.abcd p
  { pms with abcd := abcd, buf := if left = [] then pms.buf else pms.buf.memcpy 0 left }

/-- The update of the message length. -/
def addBits (pms : Md5State) (nbytes : Nat) : Md5State :=
  let nbits := UInt32.ofNat (nbytes <<< 3)
  let count1 := pms.count1 + UInt32.ofNat (nbytes >>> 29)
  let count0 := pms.count0 + nbits
  { pms with count0 := count0, count1 := if count0 < nbits then count1 + 1 else count1 }

def md5Append (pms : Md5State) (data : Str) : Md5State :=
  let nbytes := data.length
  let offset := ((pms.count0 >>> 3) &&& 63).toNat
  if nbytes = 0 then pms
  else
    let pms := addBits pms nbytes
    if offset = 0 then processFull pms data
    else
      let copy := if offset + nbytes > 64 then 64 - offset else nbytes
      let pms := { pms with buf := pms.buf.memcpy offset (data.take copy) }
      if offset + copy < 64 then pms
      else processFull { pms with abcd := md5Process pms.abcd pms.buf.bytes } (data.drop copy)

def pad : Str := 0x80 :: List.replicate 63 0

/-- The byte `i` of a row of words, low byte first. -/
def byteOf (words : List UInt32) (i : Nat) : UInt8 := ((words.getD (i / 4) 0) >>> (UInt32.ofNat (8 * (i % 4)))).toUInt8

def digestOf (abcd : Abcd) : Digest where
  bytes := (List.range 16).map (byteOf [abcd.a, abcd.b, abcd.c, abcd.d])
  len   := by rw [List.length_map, List.length_range]

def md5Finish (pms : Md5State) : Digest :=
  -- the length before the padding
  let data := (List.range 8).map (byteOf [pms.count0, pms.count1])
  let pms := md5Append pms (pad.take ((((55 : UInt32) - (pms.count0 >>> 3)) &&& 63) + 1).toNat)
  let pms := md5Append pms data
  digestOf pms.abcd

/-! ## RFC 1321 -/

/-- The function of step `i`, its word and its rotation. -/
def fn (i : Nat) : UInt32 → UInt32 → UInt32 → UInt32 := if i < 16 then F else if i < 32 then G else if i < 48 then H else I

def index (i : Nat) : Nat :=
  if i < 16 then i else if i < 32 then (5 * i + 1) % 16 else if i < 48 then (3 * i + 5) % 16 else 7 * i % 16

def shift (i : Nat) : UInt32 :=
  (([[7, 12, 17, 22], [5, 9, 14, 20], [4, 11, 16, 23], [6, 10, 15, 21]] : List (List UInt32)).getD (i / 16) []).getD (i % 4) 0

/-- One operation, after which the registers change their parts. -/
def operation (X : Nat → UInt32) (r : Abcd) (f : UInt32 → UInt32 → UInt32 → UInt32) (k : Nat) (s : UInt32) (i : Nat) : Abcd :=
  ⟨r.d, SET f r.a r.b r.c r.d (X k) s (T i), r.b, r.c⟩

def numberedStep (X : Nat → UInt32) (r : Abcd) (i : Nat) : Abcd := operation X r (fn i) (index i) (shift i) (i + 1)

def compress (abcd : Abcd) (data : Str) : Abcd :=
  let r := (List.range 64).foldl (numberedStep (word data)) abcd
  ⟨abcd.a + r.a, abcd.b + r.b, abcd.c + r.c, abcd.d + r.d⟩

/-- From one byte on, up to 56 bytes past the last block. -/
def padLen (length : Nat) : Nat := (119 - length % 64) % 64 + 1

/-- The message, a one bit, zeros and the length in bits. -/
def padded (message : Str) : Str :=
  message ++ (pad.take (padLen message.length) ++ leBytes 8 (8 * message.length))

def md5 (message : Str) : Digest := digestOf (Blocks.absorb 64 compress initAbcd (padded message)).1

/-! ## The rounds -/

/-- Four operations leave every register in its place. -/
theorem quad_eq (f : UInt32 → UInt32 → UInt32 → UInt32) (X : Nat → UInt32) (r : Abcd) (k₁ k₂ k₃ k₄ i₁ i₂ i₃ i₄ : Nat)
    (s₁ s₂ s₃ s₄ : UInt32) :
    (r |> setA f X k₁ s₁ i₁ |> setD f X k₂ s₂ i₂ |> setC f X k₃ s₃ i₃ |> setB f X k₄ s₄ i₄) =
      operation X (operation X (operation X (operation X r f k₁ s₁ i₁) f k₂ s₂ i₂) f k₃ s₃ i₃) f k₄ s₄ i₄ := rfl

theorem round1_eq (X : Nat → UInt32) (r : Abcd) : round1 X r = (List.range' 0 16).foldl (numberedStep X) r := by
  rw [round1, quad_eq, quad_eq, quad_eq, quad_eq]
  rfl

theorem round2_eq (X : Nat → UInt32) (r : Abcd) : round2 X r = (List.range' 16 16).foldl (numberedStep X) r := by
  rw [round2, quad_eq, quad_eq, quad_eq, quad_eq]
  rfl

theorem round3_eq (X : Nat → UInt32) (r : Abcd) : round3 X r = (List.range' 32 16).foldl (numberedStep X) r := by
  rw [round3, quad_eq, quad_eq, quad_eq, quad_eq]
  rfl

theorem round4_eq (X : Nat → UInt32) (r : Abcd) : round4 X r = (List.range' 48 16).foldl (numberedStep X) r := by
  rw [round4, quad_eq, quad_eq, quad_eq, quad_eq]
  rfl

/-- **The four rounds written out are the 64 numbered steps.** -/
theorem md5Process_eq_compress : md5Process = compress := by
  have hrange : List.range 64 = List.range' 0 16 ++ (List.range' 16 16 ++ (List.range' 32 16 ++ List.range' 48 16)) := by decide
  funext abcd data
  rw [md5Process, compress, hrange, List.foldl_append, List.foldl_append, List.foldl_append, ← round1_eq, ← round2_eq,
    ← round3_eq, ← round4_eq]

/-! ## The length -/

/-- The length in bits, as the two words hold it. -/
def Md5State.bits (pms : Md5State) : Nat := pms.count0.toNat + 2 ^ 32 * pms.count1.toNat

theorem bits_congr {pms pms' : Md5State} (h0 : pms.count0 = pms'.count0) (h1 : pms.count1 = pms'.count1) :
    pms.bits = pms'.bits := by
  rw [Md5State.bits, Md5State.bits, h0, h1]

/-- **The two words count modulo `2^64`**, the carry found by comparing. -/
theorem addBits_bits (pms : Md5State) (nbytes : Nat) : (addBits pms nbytes).bits = (pms.bits + 8 * nbytes) % 2 ^ 64 := by
  have h0 := pms.count0.toNat_lt
  have h1 := pms.count1.toNat_lt
  have hbits : (UInt32.ofNat (nbytes <<< 3)).toNat = 8 * nbytes % 2 ^ 32 := by
    rw [UInt32.toNat_ofNat', Nat.shiftLeft_eq, Nat.mul_comm]
  have hhigh : (UInt32.ofNat (nbytes >>> 29)).toNat = nbytes / 2 ^ 29 % 2 ^ 32 := by
    rw [UInt32.toNat_ofNat', Nat.shiftRight_eq_div_pow]
  have hone : (1 : UInt32).toNat = 1 := rfl
  simp only [Md5State.bits, addBits, UInt32.lt_iff_toNat_lt]
  split <;> rename_i hc <;> simp only [UInt32.toNat_add, hbits, hhigh, hone] at hc ⊢ <;> omega

/-- The length in bytes, modulo the size of a block. -/
theorem bytes_mod (pms : Md5State) (length : Nat) (h : pms.bits = 8 * length % 2 ^ 64) :
    (pms.count0 >>> 3).toNat < 2 ^ 29 ∧ (pms.count0 >>> 3).toNat % 64 = length % 64 := by
  have h0 := pms.count0.toNat_lt
  have hshift : (pms.count0 >>> 3).toNat = pms.count0.toNat / 8 := by
    rw [UInt32.toNat_shiftRight, Nat.shiftRight_eq_div_pow]
    rfl
  rw [Md5State.bits] at h
  rw [hshift]
  omega

theorem toNat_and_63 (x : UInt32) : (x &&& 63).toNat = x.toNat % 64 := by
  rw [UInt32.toNat_and]
  exact Nat.and_two_pow_sub_one_eq_mod x.toNat 6

theorem offset_eq (pms : Md5State) (length : Nat) (h : pms.bits = 8 * length % 2 ^ 64) :
    ((pms.count0 >>> 3) &&& 63).toNat = length % 64 := by
  rw [toNat_and_63, (bytes_mod pms length h).2]

theorem padLen_eq (pms : Md5State) (length : Nat) (h : pms.bits = 8 * length % 2 ^ 64) :
    ((((55 : UInt32) - (pms.count0 >>> 3)) &&& 63) + 1).toNat = padLen length := by
  obtain ⟨hlt, hmod⟩ := bytes_mod pms length h
  have h55 : (55 : UInt32).toNat = 55 := rfl
  have h1 : (1 : UInt32).toNat = 1 := rfl
  rw [UInt32.toNat_add, toNat_and_63, UInt32.toNat_sub, h55, h1, padLen]
  omega

/-- A word's own four bytes come first. -/
theorem byteOf_first (w : UInt32) (words : List UInt32) (i : Nat) (hi : i < 4) :
    byteOf (w :: words) i = UInt8.ofNat (w.toNat / 256 ^ i) := by
  have hpow : w.toNat >>> (8 * i) = w.toNat / 256 ^ i := by rw [Nat.shiftRight_eq_div_pow, Nat.pow_mul]
  have hshift : (UInt32.ofNat (8 * i)).toNat = 8 * i := by
    rw [UInt32.toNat_ofNat']
    omega
  apply UInt8.toNat_inj.1
  rw [byteOf, Nat.div_eq_of_lt hi, Nat.mod_eq_of_lt hi, List.getD_cons_zero, UInt32.toNat_toUInt8,
    UInt32.toNat_shiftRight, hshift, Nat.mod_eq_of_lt (show 8 * i < 32 by omega),
    hpow, UInt8.toNat_ofNat']

/-- The bytes of a row of words are the words, low byte first. -/
theorem bytesOf_eq : ∀ words : List UInt32,
    (List.range (4 * words.length)).map (byteOf words) = words.flatMap (fun w => leBytes 4 w.toNat)
  | []         => rfl
  | w :: words => by
    have hrange : List.range (4 * (words.length + 1)) = List.range 4 ++ (List.range (4 * words.length)).map (4 + ·) := by
      rw [Nat.mul_add, Nat.add_comm, List.range_add]
    have hnext : byteOf (w :: words) ∘ (4 + ·) = byteOf words := by
      funext i
      simp only [Function.comp, byteOf, Nat.add_mod_left, Nat.add_div_left i (show 0 < 4 by decide), List.getD_cons_succ]
    have hfirst : (List.range 4).map (byteOf (w :: words)) = leBytes 4 w.toNat := by
      have hlist : List.range 4 = [0, 1, 2, 3] := rfl
      rw [hlist, List.map_cons, List.map_cons, List.map_cons, List.map_cons, List.map_nil, byteOf_first w words 0 (by decide),
        byteOf_first w words 1 (by decide), byteOf_first w words 2 (by decide), byteOf_first w words 3 (by decide)]
      simp only [leBytes, Nat.div_div_eq_div_mul, pow_zero, Nat.div_one, pow_succ, one_mul]
    rw [List.length_cons, hrange, List.map_append, List.map_map, hnext, bytesOf_eq words, hfirst, List.flatMap_cons]

/-- The eight bytes of the length. -/
theorem lengthField_eq (pms : Md5State) (length : Nat) (h : pms.bits = 8 * length % 2 ^ 64) :
    (List.range 8).map (byteOf [pms.count0, pms.count1]) = leBytes 8 (8 * length) := by
  have h0 := pms.count0.toNat_lt
  have hlow : leBytes 4 (pms.bits) = leBytes 4 pms.count0.toNat := by
    rw [← leBytes_mod 4 pms.bits, Md5State.bits, show (256 : Nat) ^ 4 = 2 ^ 32 by decide, Nat.add_mul_mod_self_left,
      Nat.mod_eq_of_lt h0]
  have hhigh : pms.bits / 256 ^ 4 = pms.count1.toNat := by
    rw [Md5State.bits]
    omega
  have hmod : pms.bits = 8 * length % 256 ^ 8 := h
  rw [← leBytes_mod 8 (8 * length), ← hmod, leBytes_append 4 4, hlow, hhigh]
  exact (bytesOf_eq [pms.count0, pms.count1]).trans (by simp only [List.flatMap_cons, List.flatMap_nil, List.append_nil])

/-! ## What a state stands for -/

/-- Chaining value and partial block of the bytes so far. -/
def absorbed (message : Str) : Abcd × Str := Blocks.absorb 64 md5Process initAbcd message

/-- The bytes so far are `message`. -/
structure Holds (pms : Md5State) (message : Str) : Prop where
  abcd : pms.abcd = (absorbed message).1
  buf  : (absorbed message).2 <+: pms.buf.bytes
  bits : pms.bits = 8 * message.length % 2 ^ 64

theorem holds_init (pms : Md5State) : Holds (md5Init pms) [] := ⟨rfl, List.nil_prefix, rfl⟩

theorem Holds.offset {pms : Md5State} {message : Str} (h : Holds pms message) :
    ((pms.count0 >>> 3) &&& 63).toNat = (absorbed message).2.length := by
  rw [offset_eq pms message.length h.bits, absorbed, Blocks.absorb_length md5Process (by decide)]

/-- What was in front of the copy stays. -/
theorem memcpy_prefix (buf : Block) (left p : Str) (hl : left <+: buf.bytes) (hp : left.length + p.length ≤ 64) :
    left ++ p <+: (buf.memcpy left.length p).bytes := by
  have htake : buf.bytes.take left.length = left := List.prefix_iff_eq_take.1 hl |>.symm
  have hfits : ((left ++ p) ++ buf.bytes.drop (left.length + p.length)).take 64 =
      (left ++ p) ++ (buf.bytes.drop (left.length + p.length)).take (64 - (left ++ p).length) := by
    rw [List.take_append, List.take_of_length_le (by rw [List.length_append]; exact hp)]
  show left ++ p <+: (buf.bytes.take left.length ++ p ++ buf.bytes.drop (left.length + p.length)).take 64
  rw [htake, hfits]
  exact List.prefix_append _ _

theorem processFull_spec (pms : Md5State) (p : Str) :
    (processFull pms p).abcd = (Blocks.absorb 64 md5Process pms.abcd p).1 ∧
      (Blocks.absorb 64 md5Process pms.abcd p).2 <+: (processFull pms p).buf.bytes ∧
        (processFull pms p).bits = pms.bits := by
  refine ⟨rfl, ?_, rfl⟩
  have hlen := Blocks.absorb_length md5Process (show 0 < 64 by decide) pms.abcd p
  show (Blocks.absorb 64 md5Process pms.abcd p).2 <+: (if (Blocks.absorb 64 md5Process pms.abcd p).2 = [] then pms.buf
    else pms.buf.memcpy 0 (Blocks.absorb 64 md5Process pms.abcd p).2).bytes
  split
  · rename_i hnil
    rw [hnil]
    exact List.nil_prefix
  · exact memcpy_prefix pms.buf [] _ List.nil_prefix (by rw [hlen, List.length_nil]; omega)

/-- The partial block is filled up and processed. -/
theorem fill_spec (pms : Md5State) (left data : Str) (hl : left <+: pms.buf.bytes) (hlt : left.length < 64)
    (hfill : 64 ≤ left.length + data.length) :
    (pms.buf.memcpy left.length (data.take (64 - left.length))).bytes = left ++ data.take (64 - left.length) ∧
      Blocks.absorb 64 md5Process pms.abcd (left ++ data) =
        Blocks.absorb 64 md5Process (md5Process pms.abcd (left ++ data.take (64 - left.length))) (data.drop (64 - left.length)) := by
  have hhead : (data.take (64 - left.length)).length = 64 - left.length := by
    rw [List.length_take]
    omega
  have hlen : (left ++ data.take (64 - left.length)).length = 64 := by
    rw [List.length_append, hhead]
    omega
  have hp := memcpy_prefix pms.buf left (data.take (64 - left.length)) hl (by rw [hhead]; omega)
  have hsplit : left ++ data = (left ++ data.take (64 - left.length)) ++ data.drop (64 - left.length) := by
    rw [List.append_assoc, List.take_append_drop]
  refine ⟨(hp.eq_of_length (by rw [Block.len, hlen])).symm, ?_⟩
  rw [hsplit, Blocks.absorb_block md5Process (by decide) _ _ _ hlen]

/-- **A piece of the message is put behind what was there.** -/
theorem md5Append_holds (pms : Md5State) (message data : Str) (h : Holds pms message) :
    Holds (md5Append pms data) (message ++ data) := by
  have hlt : (absorbed message).2.length < 64 := by
    rw [absorbed, Blocks.absorb_length md5Process (by decide)]
    exact Nat.mod_lt _ (by decide)
  have hjoin : absorbed (message ++ data) = Blocks.absorb 64 md5Process pms.abcd ((absorbed message).2 ++ data) := by
    rw [absorbed, Blocks.absorb_append md5Process (by decide), h.abcd]
    rfl
  have hbits : (addBits pms data.length).bits = 8 * (message ++ data).length % 2 ^ 64 := by
    rw [addBits_bits, h.bits, List.length_append]
    omega
  have hall : ∀ (st : Md5State) (p : Str), st.bits = (addBits pms data.length).bits →
      absorbed (message ++ data) = Blocks.absorb 64 md5Process st.abcd p → Holds (processFull st p) (message ++ data) := by
    intro st p hst hp
    obtain ⟨habcd, hbuf, hb⟩ := processFull_spec st p
    exact ⟨by rw [hp]; exact habcd, by rw [hp]; exact hbuf, (hb.trans hst).trans hbits⟩
  unfold md5Append
  simp only [h.offset]
  split
  · rename_i hnil
    rw [List.length_eq_zero_iff.1 hnil, List.append_nil]
    exact h
  · split
    · rename_i hzero
      rw [List.length_eq_zero_iff.1 hzero, List.nil_append] at hjoin
      exact hall _ data rfl hjoin
    · by_cases hfill : (absorbed message).2.length + data.length < 64
      · have hcopy : ¬ (absorbed message).2.length + data.length > 64 := by omega
        rw [Blocks.absorb_of_lt md5Process _ _ (by rw [List.length_append]; exact hfill)] at hjoin
        rw [if_neg hcopy, if_pos hfill, List.take_of_length_le (Nat.le_refl _)]
        exact ⟨by rw [hjoin]; rfl, by rw [hjoin]; exact memcpy_prefix pms.buf _ data h.buf (Nat.le_of_lt hfill), hbits⟩
      · have hcopy : (if (absorbed message).2.length + data.length > 64 then 64 - (absorbed message).2.length
            else data.length) = 64 - (absorbed message).2.length := by
          split <;> omega
        obtain ⟨hblock, hfilled⟩ := fill_spec pms _ data h.buf hlt (by omega)
        rw [hcopy, if_neg (by omega)]
        exact hall _ _ (bits_congr rfl rfl) (by rw [hjoin, hfilled, ← hblock]; rfl)

theorem foldl_append_holds (pms : Md5State) (message : Str) (h : Holds pms message) : ∀ chunks : List Str,
    Holds (chunks.foldl md5Append pms) (message ++ chunks.flatten) := fun chunks => by
  induction chunks generalizing pms message with
  | nil => rw [List.flatten_nil, List.append_nil]; exact h
  | cons c chunks ih =>
    rw [List.foldl_cons, List.flatten_cons, ← List.append_assoc]
    exact ih _ _ (md5Append_holds pms message c h)

/-- **`md5_finish` gives the digest of the bytes so far.** -/
theorem md5Finish_eq (pms : Md5State) (message : Str) (h : Holds pms message) : md5Finish pms = md5 message := by
  have hpadded := md5Append_holds _ _ (leBytes 8 (8 * message.length))
    (md5Append_holds pms message (pad.take (padLen message.length)) h)
  rw [List.append_assoc] at hpadded
  rw [md5Finish, lengthField_eq pms message.length h.bits, padLen_eq pms message.length h.bits]
  show digestOf _ = _
  rw [hpadded.abcd, absorbed, md5Process_eq_compress]
  rfl

/-- **However a message is cut, and whatever was on the stack.** -/
theorem md5Finish_chunks (stack : Md5State) (chunks : List Str) :
    md5Finish (chunks.foldl md5Append (md5Init stack)) = md5 chunks.flatten :=
  md5Finish_eq _ _ (foldl_append_holds _ [] (holds_init stack) chunks)

/-! ## `get_md5sum` -/

/-- What a `read(fd, buff, sizeof(buff))` returns: bytes, none of them at the end of the file, or an error. -/
abbrev ReadResult := Option Str

/-- The loop of `get_md5sum`: the state it leaves and the last `rc`, when the results suffice. -/
def readLoop (state : Md5State) : List ReadResult → Option (Md5State × Int)
  | []                => none
  | none :: _         => some (state, -1)
  | some buff :: rest => if buff = [] then some (state, 0) else readLoop (md5Append state buff) rest

/-- What follows the loop: the return code and `checksum->str`. -/
def finished : Md5State × Int → Int × Str
  | (state, rc) => if rc < 0 then (-1, []) else (0, hexOutput (md5Finish state))

/-- The return code and `checksum->str`; `stack` is what the local `state` holds before `md5_init`. -/
def getMd5sumReads (stack : Md5State) (fd : Int) (reads : List ReadResult) : Option (Int × Str) :=
  if fd < 0 then some (-1, [])
  else (readLoop (md5Init stack) reads).map finished

/-- What the results hand over: the bytes up to the end of the file, or nothing on an error. -/
def received : List ReadResult → Option (Option Str)
  | []                => none
  | none :: _         => some none
  | some buff :: rest => if buff = [] then some (some []) else (received rest).map (fun r => r.map (buff ++ ·))

def readingOf : Option Str → Reading
  | none         => .readFails
  | some content => .digest (md5 content)

theorem readLoop_eq (reads : List ReadResult) : ∀ (state : Md5State) (message : Str), Holds state message →
    (readLoop state reads).map finished = (received reads).map (fun r => getMd5sum (readingOf (r.map (message ++ ·)))) := by
  induction reads with
  | nil => intro _ _ _; rfl
  | cons r rest ih =>
    intro state message h
    cases r with
    | none => rfl
    | some buff =>
      rw [readLoop, received]
      split
      · have hfin : finished (state, 0) = (0, hexOutput (md5Finish state)) := rfl
        rw [Option.map_some, Option.map_some, Option.map_some, List.append_nil, hfin, md5Finish_eq state message h]
        rfl
      · rw [ih _ _ (md5Append_holds state message buff h), Option.map_map]
        congr 1
        funext r
        cases r with
        | none => rfl
        | some content => simp only [Function.comp, Option.map_some, List.append_assoc]

/-- **What `get_md5sum` returns is a matter of the bytes alone**: however `read` cuts the file, it is the digest of RFC 1321
in hexadecimal. -/
theorem getMd5sumReads_eq (stack : Md5State) (fd : Int) (reads : List ReadResult) : getMd5sumReads stack fd reads =
    if fd < 0 then some (getMd5sum .openFails) else (received reads).map (fun r => getMd5sum (readingOf r)) := by
  rw [getMd5sumReads]
  split
  · rfl
  · rw [readLoop_eq reads _ [] (holds_init stack)]
    congr 1
    funext r
    cases r <;> rfl

example : (md5 (ascii "abc")).bytes.flatMap hexByte = ascii "900150983cd24fb0d6963f7d28e17f72" := by decide +kernel

end CheckRealtime.Md5
