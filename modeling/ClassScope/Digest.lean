import ClassScope.Bytes

/-!
The digest that index files are named by: BLAKE3 with 256 bits. A text is cut into chunks of 1024 bytes
and each chunk into blocks of 64; the chunks are the leaves of a binary tree, whose root gives the digest.
-/
namespace ClassScope.Digest

/-- Eight words that stand for all that was taken in so far. -/
abbrev Words := Array UInt32

def initial : Words :=
  #[0x6A09E667, 0xBB67AE85, 0x3C6EF372, 0xA54FF53A, 0x510E527F, 0x9B05688C, 0x1F83D9AB, 0x5BE0CD19]

/-! ## Compressing one block -/

def rotateRight (x : UInt32) (n : UInt32) : UInt32 :=
  (x >>> n) ||| (x <<< (32 - n))

/-- Mixes two message words into four words of the state. -/
def quarter (v : Words) (a b c d : Nat) (x y : UInt32) : Words :=
  let va := v.getD a 0 + v.getD b 0 + x
  let vd := rotateRight (v.getD d 0 ^^^ va) 16
  let vc := v.getD c 0 + vd
  let vb := rotateRight (v.getD b 0 ^^^ vc) 12
  let va := va + vb + y
  let vd := rotateRight (vd ^^^ va) 8
  let vc := vc + vd
  let vb := rotateRight (vb ^^^ vc) 7
  (((v.setIfInBounds a va).setIfInBounds b vb).setIfInBounds c vc).setIfInBounds d vd

/-- Columns first, then diagonals. -/
def lanes : List (Nat × Nat × Nat × Nat) :=
  [(0, 4, 8, 12), (1, 5, 9, 13), (2, 6, 10, 14), (3, 7, 11, 15),
    (0, 5, 10, 15), (1, 6, 11, 12), (2, 7, 8, 13), (3, 4, 9, 14)]

def round (v m : Words) : Words :=
  (lanes.zipIdx).foldl (fun v ((a, b, c, d), i) =>
    quarter v a b c d (m.getD (2 * i) 0) (m.getD (2 * i + 1) 0)) v

/-- The order in which the next round takes the message words. -/
def permutation : List Nat :=
  [2, 6, 3, 10, 7, 0, 4, 13, 1, 11, 12, 5, 9, 14, 15, 8]

def permute (m : Words) : Words :=
  (permutation.map fun i => m.getD i 0).toArray

def rounds : Nat → Words → Words → Words
  | 0, v, _ => v
  | n + 1, v, m => rounds n (round v m) (permute m)

/-- A block that waits to be compressed: the words before it, its own words, the number of its chunk, its
length and its role. -/
structure Block where
  chain : Words
  message : Words
  counter : Nat
  length : Nat
  flags : UInt32

def chunkStart : UInt32 := 1
def chunkEnd : UInt32 := 2
def parentFlag : UInt32 := 4
def rootFlag : UInt32 := 8

/-- The eight words that the block yields, with further flags. -/
def Block.compress (b : Block) (flags : UInt32) : Words :=
  let v := b.chain ++ initial.take 4 ++
    #[b.counter.toUInt32, (b.counter >>> 32).toUInt32, b.length.toUInt32, b.flags ||| flags]
  let v := rounds 7 v b.message
  ((List.range 8).map fun i => v.getD i 0 ^^^ v.getD (i + 8) 0).toArray

/-! ## Chunks and their tree -/

/-- Parts of `n` bytes, the last one maybe shorter; the number bounds how many there are. -/
def cut (n : Nat) : Nat → Bytes → List Bytes
  | 0, _ => []
  | bound + 1, bs => if bs.isEmpty then [] else bs.take n :: cut n bound (bs.drop n)

/-- Sixteen words from 64 bytes, zeros where there are fewer. -/
def words (bs : Bytes) : Words :=
  ((List.range 16).map fun i =>
    (Bytes.littleEndian ((bs.drop (4 * i)).take 4)).toUInt32).toArray

/-- The last block of a chunk, after all before it were compressed. -/
def chunkBlock (counter : Nat) (chain : Words) (flags : UInt32) : List Bytes → Block
  | [] => ⟨chain, words [], counter, 0, flags ||| chunkEnd⟩
  | [bs] => ⟨chain, words bs, counter, bs.length, flags ||| chunkEnd⟩
  | bs :: rest =>
      chunkBlock counter (Block.compress ⟨chain, words bs, counter, bs.length, flags⟩ 0) 0 rest

def chunk (counter : Nat) (bs : Bytes) : Block :=
  chunkBlock counter initial chunkStart (cut 64 16 bs)

def parent (left right : Block) : Block :=
  ⟨initial, left.compress 0 ++ right.compress 0, 0, 64, parentFlag⟩

/-- Joins neighbours; one without a neighbour moves up as it is. -/
def joinPairs : List Block → List Block
  | left :: right :: rest => parent left right :: joinPairs rest
  | rest => rest

/-- The root over the leaves; the number bounds the height. -/
def root (first : Block) : Nat → List Block → Block
  | 0, _ => first
  | bound + 1, blocks =>
      match blocks with
      | [block] => block
      | blocks => root first bound (joinPairs blocks)

def hash (bs : Bytes) : Bytes :=
  let chunks := (cut 1024 (bs.length / 1024 + 1) bs).zipIdx.map fun (c, i) => chunk i c
  let top := root (chunk 0 bs) (chunks.length + 1) (if bs.isEmpty then [chunk 0 []] else chunks)
  (top.compress rootFlag).toList.flatMap fun w => Bytes.ofNat 4 w.toNat

end ClassScope.Digest
