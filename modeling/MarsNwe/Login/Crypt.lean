import MarsNwe.Lib.ByteBuf

/-! # Password encryption of nwcrypt.c

`shuffle` folds an object id and a password into 16 bytes, `nw_encrypt` answers
a challenge of 8 bytes with such a hash.
-/

namespace MarsNwe

/-- `encrypttable`. -/
def encrypttable : List UInt8 :=
  [0x7, 0x8, 0x0, 0x8, 0x6, 0x4, 0xE, 0x4, 0x5, 0xC, 0x1, 0x7, 0xB, 0xF, 0xA, 0x8,
   0xF, 0x8, 0xC, 0xC, 0x9, 0x4, 0x1, 0xE, 0x4, 0x6, 0x2, 0x4, 0x0, 0xA, 0xB, 0x9,
   0x2, 0xF, 0xB, 0x1, 0xD, 0x2, 0x1, 0x9, 0x5, 0xE, 0x7, 0x0, 0x0, 0x2, 0x6, 0x6,
   0x0, 0x7, 0x3, 0x8, 0x2, 0x9, 0x3, 0xF, 0x7, 0xF, 0xC, 0xF, 0x6, 0x4, 0xA, 0x0,
   0x2, 0x3, 0xA, 0xB, 0xD, 0x8, 0x3, 0xA, 0x1, 0x7, 0xC, 0xF, 0x1, 0x8, 0x9, 0xD,
   0x9, 0x1, 0x9, 0x4, 0xE, 0x4, 0xC, 0x5, 0x5, 0xC, 0x8, 0xB, 0x2, 0x3, 0x9, 0xE,
   0x7, 0x7, 0x6, 0x9, 0xE, 0xF, 0xC, 0x8, 0xD, 0x1, 0xA, 0x6, 0xE, 0xD, 0x0, 0x7,
   0x7, 0xA, 0x0, 0x1, 0xF, 0x5, 0x4, 0xB, 0x7, 0xB, 0xE, 0xC, 0x9, 0x5, 0xD, 0x1,
   0xB, 0xD, 0x1, 0x3, 0x5, 0xD, 0xE, 0x6, 0x3, 0x0, 0xB, 0xB, 0xF, 0x3, 0x6, 0x4,
   0x9, 0xD, 0xA, 0x3, 0x1, 0x4, 0x9, 0x4, 0x8, 0x3, 0xB, 0xE, 0x5, 0x0, 0x5, 0x2,
   0xC, 0xB, 0xD, 0x5, 0xD, 0x5, 0xD, 0x2, 0xD, 0x9, 0xA, 0xC, 0xA, 0x0, 0xB, 0x3,
   0x5, 0x3, 0x6, 0x9, 0x5, 0x1, 0xE, 0xE, 0x0, 0xE, 0x8, 0x2, 0xD, 0x2, 0x2, 0x0,
   0x4, 0xF, 0x8, 0x5, 0x9, 0x6, 0x8, 0x6, 0xB, 0xA, 0xB, 0xF, 0x0, 0x7, 0x2, 0x8,
   0xC, 0x7, 0x3, 0xA, 0x1, 0x4, 0x2, 0x5, 0xF, 0x7, 0xA, 0xC, 0xE, 0x5, 0x9, 0x3,
   0xE, 0x7, 0x1, 0x2, 0xE, 0x1, 0xF, 0x4, 0xA, 0x6, 0xC, 0x6, 0xF, 0x4, 0x3, 0x0,
   0xC, 0x0, 0x3, 0x6, 0xF, 0x8, 0x7, 0xB, 0x2, 0xD, 0xC, 0x6, 0xA, 0xA, 0x8, 0xD]

/-- `encryptkeys`. -/
def encryptkeys : List UInt8 :=
  [0x48, 0x93, 0x46, 0x67, 0x98, 0x3D, 0xE6, 0x8D, 0xB7, 0x10, 0x7A, 0x26, 0x5A, 0xB9, 0xB1, 0x35,
   0x6B, 0x0F, 0xD5, 0x70, 0xAE, 0xFB, 0xAD, 0x11, 0xF4, 0x47, 0xDC, 0xA7, 0xEC, 0xCF, 0x50, 0xC0]

/-- The byte at an index. -/
def byteAt (l : List UInt8) (i : Nat) : UInt8 := l.getD i 0

/-- One step of the double loop of `shuffle1`; `b4` is the sum of all bytes
computed so far. -/
def shuffleStep (w : List UInt8 × Nat) (s : Nat) : List UInt8 × Nat :=
  let (temp, b4) := w
  let b3 := (byteAt temp s + UInt8.ofNat b4) ^^^
    (byteAt temp ((s + b4) % 32) - byteAt encryptkeys s)
  (temp.set s b3, b4 + b3.toNat)

/-- `shuffle1`. -/
def shuffle1 (temp : List UInt8) : ByteBuf 16 :=
  let temp := ((List.range 32 ++ List.range 32).foldl shuffleStep (temp, 0)).1
  .ofList 16 ((List.range 16).map fun i =>
    byteAt encrypttable (byteAt temp (2 * i)).toNat |||
      byteAt encrypttable (byteAt temp (2 * i + 1)).toNat <<< 4)

/-- XOR the bytes of the second list into the first one. -/
def xorBytes (a b : List UInt8) : List UInt8 := a.zipWith (· ^^^ ·) b

/-- The loop over `n` full blocks of 32 bytes: `temp` and the bytes left over. -/
def shuffleBlocks : Nat → List UInt8 → List UInt8 → List UInt8 × List UInt8
  | 0, temp, buf => (temp, buf)
  | n + 1, temp, buf => shuffleBlocks n (xorBytes temp (buf.take 32)) (buf.drop 32)

/-- The loop over the bytes left over: `j` is `b2 - d`; at the end of the bytes
a byte of the keys is taken instead and they start again. -/
def shuffleRest (temp rest : List UInt8) : List UInt8 :=
  ((List.range 32).foldl (fun (w : List UInt8 × Nat) s =>
    if w.2 = rest.length then (w.1.set s (byteAt w.1 s ^^^ byteAt encryptkeys s), 0)
    else (w.1.set s (byteAt w.1 s ^^^ byteAt rest w.2), w.2 + 1)) (temp, 0)).1

/-- `shuffle`: zeros at the end of the buffer do not count. -/
def shuffle (lon buf : List UInt8) : ByteBuf 16 :=
  let buf := (buf.reverse.dropWhile (· = 0)).reverse
  let (temp, rest) := shuffleBlocks (buf.length / 32) (List.replicate 32 0) buf
  let temp := if rest.isEmpty then temp else shuffleRest temp rest
  shuffle1 (xorBytes temp ((List.range 32).map fun s => byteAt lon (s % 4)))

/-- `nw_encrypt`: `fra` is the challenge and `buf` the hash. -/
def nwEncrypt (fra : ByteBuf 8) (buf : ByteBuf 16) : ByteBuf 8 :=
  let k := (shuffle (fra.bytes.take 4) buf.bytes).bytes ++
    (shuffle (fra.bytes.drop 4) buf.bytes).bytes
  let k := (List.range 16).map fun s => byteAt k s ^^^ byteAt k (31 - s)
  .ofList 8 ((List.range 8).map fun s => byteAt k s ^^^ byteAt k (15 - s))

end MarsNwe
