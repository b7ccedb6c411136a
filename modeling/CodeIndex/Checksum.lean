import CodeIndex.Text.Basic

/-!
# Checksums

A file is recognised by the BLAKE3 digest of its content, written in hexadecimal.  The content is
cut into chunks of 1024 octets, each compressed block by block to an output; a binary tree whose
left side is the largest possible full tree joins the outputs, and the root output gives the digest.
-/

namespace CodeIndex.Blake3

/-- Eight chaining words. -/
abbrev Chain := Vector UInt32 8

/-- The sixteen words of a block or of a compression state. -/
abbrev Words := Vector UInt32 16

/-- The initial chaining words. -/
def initialChain : Chain :=
  #v[0x6A09E667, 0xBB67AE85, 0x3C6EF372, 0xA54FF53A, 0x510E527F, 0x9B05688C, 0x1F83D9AB, 0x5BE0CD19]

/-- Octets in a block. -/
def blockSize : Nat := 64

/-- Octets in a chunk. -/
def chunkSize : Nat := 1024

/-- The first block of a chunk. -/
def chunkStart : UInt32 := 1
/-- The last block of a chunk. -/
def chunkEnd : UInt32 := 2
/-- A block that joins two chaining values. -/
def parent : UInt32 := 4
/-- The block that gives the digest. -/
def root : UInt32 := 8

/-- Rotation to the right. -/
def rotateRight (x n : UInt32) : UInt32 := (x >>> n) ||| (x <<< (32 - n))

/-- The quarter round on four words of the state. -/
def mix (v : Words) (a b c d : Fin 16) (x y : UInt32) : Words :=
  let va := v[a] + v[b] + x
  let vd := rotateRight (v[d] ^^^ va) 16
  let vc := v[c] + vd
  let vb := rotateRight (v[b] ^^^ vc) 12
  let va := va + vb + y
  let vd := rotateRight (vd ^^^ va) 8
  let vc := vc + vd
  let vb := rotateRight (vb ^^^ vc) 7
  (((v.set a va).set b vb).set c vc).set d vd

/-- One round: the columns, then the diagonals. -/
def round (v m : Words) : Words :=
  let v := mix v 0 4 8 12 m[0] m[1]
  let v := mix v 1 5 9 13 m[2] m[3]
  let v := mix v 2 6 10 14 m[4] m[5]
  let v := mix v 3 7 11 15 m[6] m[7]
  let v := mix v 0 5 10 15 m[8] m[9]
  let v := mix v 1 6 11 12 m[10] m[11]
  let v := mix v 2 7 8 13 m[12] m[13]
  mix v 3 4 9 14 m[14] m[15]

/-- The order of the message words in the next round. -/
def permute (m : Words) : Words :=
  #v[m[2], m[6], m[3], m[10], m[7], m[0], m[4], m[13], m[1], m[11], m[12], m[5], m[9], m[14], m[15],
    m[8]]

/-- `n` more rounds. -/
def rounds : Nat → Words → Words → Words
  | 0, v, _ => v
  | n + 1, v, m => rounds n (round v m) (permute m)

/-- A compression that has not been carried out: its arguments. -/
structure Output where
  chain : Chain
  block : Words
  counter : UInt64
  blockLength : UInt32
  flags : UInt32
  deriving Inhabited

/-- The first eight words of the compression. -/
def Output.compress (o : Output) (flags : UInt32) : Chain :=
  let chain := o.chain
  let v : Words := #v[chain[0], chain[1], chain[2], chain[3],
    chain[4], chain[5], chain[6], chain[7],
    initialChain[0], initialChain[1], initialChain[2], initialChain[3],
    o.counter.toUInt32, (o.counter >>> 32).toUInt32, o.blockLength, flags]
  let v := rounds 7 v o.block
  #v[v[0] ^^^ v[8], v[1] ^^^ v[9], v[2] ^^^ v[10], v[3] ^^^ v[11],
    v[4] ^^^ v[12], v[5] ^^^ v[13], v[6] ^^^ v[14], v[7] ^^^ v[15]]

/-- The chaining value of an output inside the tree. -/
def Output.chainingValue (o : Output) : Chain := o.compress o.flags

/-- The digest of an output at the root of the tree. -/
def Output.digest (o : Output) : Chain := { o with counter := 0 }.compress (o.flags ||| root)

/-- The octet at an index, zero beyond `stop`. -/
def octetAt (bytes : ByteArray) (stop i : Nat) : UInt32 :=
  if h : i < bytes.size ∧ i < stop then bytes[i].toUInt32 else 0

/-- The sixteen little-endian words from `start` on, with zeros beyond `stop`. -/
def blockWords (bytes : ByteArray) (start stop : Nat) : Words :=
  Vector.ofFn fun k =>
    let i := start + 4 * k.val
    octetAt bytes stop i ||| (octetAt bytes stop (i + 1) <<< 8)
      ||| (octetAt bytes stop (i + 2) <<< 16) ||| (octetAt bytes stop (i + 3) <<< 24)

/-- The blocks of a chunk from `start` to `stop`, the last of them left as an output.  `flags` marks
the first block. -/
def chunkBlocks (bytes : ByteArray) (chain : Chain) (start stop : Nat) (counter : UInt64)
    (flags : UInt32) : Output :=
  if stop ≤ start + blockSize then
    ⟨chain, blockWords bytes start stop, counter, (stop - start).toUInt32, flags ||| chunkEnd⟩
  else
    let block := blockWords bytes start (start + blockSize)
    let next := (Output.mk chain block counter blockSize.toUInt32 flags).chainingValue
    chunkBlocks bytes next (start + blockSize) stop counter 0
  termination_by stop - start
  decreasing_by
    simp only [blockSize] at *
    omega

/-- The output of one chunk. -/
def chunkOutput (bytes : ByteArray) (start stop : Nat) (counter : UInt64) : Output :=
  chunkBlocks bytes initialChain start stop counter chunkStart

/-- The output that joins two chaining values. -/
def parentOutput (left right : Chain) : Output :=
  ⟨initialChain, left ++ right, 0, blockSize.toUInt32, parent⟩

/-- How many octets of a longer input than a chunk go to the left side of the tree: the largest
power of two chunks that leaves something for the right side. -/
def leftLength (length : Nat) : Nat :=
  Nat.pow 2 (Nat.log2 ((length - 1) / chunkSize)) * chunkSize

private theorem leftLength_pos (length : Nat) : 0 < leftLength length :=
  Nat.mul_pos (Nat.two_pow_pos _) (by decide)

private theorem leftLength_lt {length : Nat} (h : chunkSize < length) :
    leftLength length < length := by
  have hq : (length - 1) / chunkSize ≠ 0 := by
    have : 1 ≤ (length - 1) / chunkSize := (Nat.le_div_iff_mul_le (by decide)).2 (by omega)
    omega
  have hp := Nat.log2_self_le hq
  have hm : Nat.pow 2 (Nat.log2 ((length - 1) / chunkSize)) * chunkSize ≤ length - 1 :=
    Nat.le_trans (Nat.mul_le_mul_right _ hp) (Nat.div_mul_le_self _ _)
  have hl : leftLength length ≤ length - 1 := hm
  have : 0 < chunkSize := by decide
  omega

/-- The output of the tree over the octets from `start` on. -/
def treeOutput (bytes : ByteArray) (start length : Nat) : Output :=
  if _h : length ≤ chunkSize then
    chunkOutput bytes start (start + length) (start / chunkSize).toUInt64
  else
    let left := leftLength length
    parentOutput (treeOutput bytes start left).chainingValue
      (treeOutput bytes (start + left) (length - left)).chainingValue
  termination_by length
  decreasing_by
    · exact leftLength_lt (Nat.lt_of_not_le _h)
    · have := leftLength_pos length
      simp only [chunkSize] at _h
      omega

/-- The octets of a word, lowest first. -/
def wordOctets (w : UInt32) : List UInt8 :=
  [w.toUInt8, (w >>> 8).toUInt8, (w >>> 16).toUInt8, (w >>> 24).toUInt8]

/-- The digest of an octet sequence. -/
def hash (bytes : ByteArray) : List UInt8 :=
  (treeOutput bytes 0 bytes.size).digest.toList.flatMap wordOctets

end CodeIndex.Blake3

namespace CodeIndex.Checksum

/-- The checksum of a content. -/
def ofContent (content : ByteArray) : String := Text.hexText (Blake3.hash content)

/-- The checksum of a file without content, which has nothing to index. -/
def empty : String := ofContent ByteArray.empty

end CodeIndex.Checksum
