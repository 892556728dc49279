import ServiceRegistry.Text.Bytes

/-! # The BLAKE3 hash

Keys and ring points are spread by the unkeyed BLAKE3 hash with 32 bytes of output. The input is cut
into chunks of 1024 bytes and each chunk into blocks of 64; a chunk is the chain of its compressed
blocks, and the chunks are the leaves of a binary tree whose left subtrees are as large a power of
two as possible. -/

namespace ServiceRegistry.Blake3

/-- The chaining value between two compressions. -/
abbrev Chain := Vector UInt32 8

/-- A block of input, or the state of a compression. -/
abbrev Block := Vector UInt32 16

/-- The chaining value before the first block. -/
def iv : Chain :=
  #v[0x6a09e667, 0xbb67ae85, 0x3c6ef372, 0xa54ff53a, 0x510e527f, 0x9b05688c, 0x1f83d9ab, 0x5be0cd19]

/-- Which word of a block is read at each place in the next round. -/
def schedule : Vector Nat 16 := #v[2, 6, 3, 10, 7, 0, 4, 13, 1, 11, 12, 5, 9, 14, 15, 8]

/-- This block is the first of its chunk. -/
def chunkStart : UInt32 := 1
/-- This block is the last of its chunk. -/
def chunkEnd : UInt32 := 2
/-- This block holds the chaining values of two subtrees. -/
def parent : UInt32 := 4
/-- This block is the last of all. -/
def rootFlag : UInt32 := 8

/-! ### Compression -/

/-- Rotate a word to the right by less than 32 places. -/
def rotate (x n : UInt32) : UInt32 := (x >>> n) ||| (x <<< (32 - n))

/-- A place in a block. -/
def place (k : Nat) : Fin 16 := Bytes.nibble k

/-- Mix two words of a block into a column or a diagonal of the state, given by its places. -/
def mix (v : Block) (a b c d : Nat) (x y : UInt32) : Block :=
  let (a, b, c, d) := (place a, place b, place c, place d)
  let va := v[a] + v[b] + x
  let vd := rotate (v[d] ^^^ va) 16
  let vc := v[c] + vd
  let vb := rotate (v[b] ^^^ vc) 12
  let va := va + vb + y
  let vd := rotate (vd ^^^ va) 8
  let vc := vc + vd
  let vb := rotate (vb ^^^ vc) 7
  (((v.set a va).set b vb).set c vc).set d vd

/-- Mix a block into the columns and then into the diagonals of the state. -/
def round (v m : Block) : Block :=
  let word (k : Nat) : UInt32 := m[place k]
  let v := mix v 0 4 8 12 (word 0) (word 1)
  let v := mix v 1 5 9 13 (word 2) (word 3)
  let v := mix v 2 6 10 14 (word 4) (word 5)
  let v := mix v 3 7 11 15 (word 6) (word 7)
  let v := mix v 0 5 10 15 (word 8) (word 9)
  let v := mix v 1 6 11 12 (word 10) (word 11)
  let v := mix v 2 7 8 13 (word 12) (word 13)
  mix v 3 4 9 14 (word 14) (word 15)

/-- `n` rounds, the words of the block changing their places between two of them. -/
def rounds : Nat → Block → Block → Block
  | 0, v, _ => v
  | n + 1, v, m => rounds n (round v m) (schedule.map fun i => m[place i])

/-- The chaining value after a block of `size` bytes, the `counter`-th chunk's. -/
def compress (cv : Chain) (block : Block) (counter : Nat) (size flags : UInt32) : Chain :=
  let words := cv.toList ++ iv.toList.take 4 ++
    [.ofNat counter, .ofNat (counter / 4294967296), size, flags]
  let v := rounds 7 (.ofFn fun i => words.getD i.val 0) block
  .ofFn fun i => v[place i.val] ^^^ v[place (i.val + 8)]

/-! ### Chunks and the tree -/

/-- Up to 64 bytes as little-endian words, zeros standing for missing ones. -/
def toBlock (bs : Bytes) : Block :=
  let bytes := bs.toArray
  let byte (i : Nat) : UInt32 := (bytes.getD i 0).toUInt32
  .ofFn fun i =>
    let at' := 4 * i.val
    byte at' ||| (byte (at' + 1) <<< 8) ||| (byte (at' + 2) <<< 16) ||| (byte (at' + 3) <<< 24)

/-- The parts of `size` bytes, the last one shorter; at least one part. -/
def parts (size : Nat) (bs : Bytes) : List Bytes :=
  (List.range (max 1 ((bs.length + size - 1) / size))).map fun i => (bs.drop (i * size)).take size

/-- The chaining value of a chunk, from that before its blocks. -/
def chain (counter : Nat) (last : UInt32) (first : Bool) (cv : Chain) : List Bytes → Chain
  | [] => cv
  | b :: bs =>
    let start := if first then chunkStart else 0
    let stop := if bs.isEmpty then chunkEnd ||| last else 0
    chain counter last false
      (compress cv (toBlock b) counter (.ofNat b.length) (start ||| stop)) bs

/-- The chaining value of a chunk; `last` marks the only chunk of the input. -/
def chunk (counter : Nat) (last : UInt32) (bs : Bytes) : Chain :=
  chain counter last true iv (parts 64 bs)

/-- The chaining value over two subtrees. -/
def join (flags : UInt32) (left right : Chain) : Chain :=
  compress iv (left ++ right) 0 64 (parent ||| flags)

/-- Join neighbours, an odd last one staying alone. -/
def joinPairs : List Chain → List Chain
  | left :: right :: rest => join 0 left right :: joinPairs rest
  | rest => rest

theorem length_joinPairs_le (cs : List Chain) : (joinPairs cs).length ≤ (cs.length + 1) / 2 := by
  fun_induction joinPairs cs with
  | case1 l r rest ih =>
    simp only [List.length_cons]
    omega
  | case2 cs h =>
    match cs with
    | [] => simp
    | [_] => simp
    | l :: r :: rest => exact absurd rfl (h l r rest)

/-- The root over subtrees of equal size, the last of which may be smaller. -/
def top (cs : List Chain) : Chain :=
  match cs with
  | [] => iv
  | [c] => c
  | [left, right] => join rootFlag left right
  | a :: b :: c :: rest => top (joinPairs (a :: b :: c :: rest))
termination_by cs.length
decreasing_by
  have := length_joinPairs_le (a :: b :: c :: rest)
  simp only [List.length_cons] at *
  omega

/-- The hash, as eight words; its bytes are these words in order, each little-endian. -/
def hash (bs : Bytes) : Chain :=
  match parts 1024 bs with
  | [only] => chunk 0 rootFlag only
  | chunks => top (chunks.mapIdx fun i c => chunk i 0 c)

end ServiceRegistry.Blake3
