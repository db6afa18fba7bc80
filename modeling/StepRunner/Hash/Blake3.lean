/-!
# BLAKE3

The unkeyed BLAKE3 hash.  The input is cut into chunks of 1024 bytes and each chunk into blocks of
64 bytes; the chunks are the leaves of a binary tree whose left subtrees are full, and the root is
compressed once more with a flag of its own.

* `Blake3.compress`   the compression function
* `Blake3.Node`       a compression that has not been carried out yet
* `Blake3.chunkNode`  the node of a chunk
* `Blake3.treeNode`   the node of a run of chunks
* `Blake3.hash`       the first 32 bytes of output
* `Blake3.hex`        these as lower-case hexadecimal digits
-/

namespace StepRunner.Hash.Blake3

/-! ## compression -/

abbrev Chain := Vector UInt32 8

abbrev Words := Vector UInt32 16

def start : Chain :=
  #v[0x6A09E667, 0xBB67AE85, 0x3C6EF372, 0xA54FF53A, 0x510E527F, 0x9B05688C, 0x1F83D9AB, 0x5BE0CD19]

/-- where each message word comes from in the next round -/
def permutation : Vector (Fin 16) 16 := #v[2, 6, 3, 10, 7, 0, 4, 13, 1, 11, 12, 5, 9, 14, 15, 8]

/-- the words that each of the eight mixing steps of a round works on -/
def lanes : List (Fin 16 × Fin 16 × Fin 16 × Fin 16) :=
  [(0, 4, 8, 12), (1, 5, 9, 13), (2, 6, 10, 14), (3, 7, 11, 15),
   (0, 5, 10, 15), (1, 6, 11, 12), (2, 7, 8, 13), (3, 4, 9, 14)]

def chunkStart : UInt32 := 1
def chunkEnd : UInt32 := 2
def parent : UInt32 := 4
def root : UInt32 := 8

def turn (x : UInt32) (n : UInt32) : UInt32 := (x >>> n) ||| (x <<< (32 - n))

/-- one mixing step with two message words -/
def mix (v : Words) (lane : Fin 16 × Fin 16 × Fin 16 × Fin 16) (x y : UInt32) : Words :=
  let (ia, ib, ic, id) := lane
  let a := v[ia] + v[ib] + x
  let d := turn (v[id] ^^^ a) 16
  let c := v[ic] + d
  let b := turn (v[ib] ^^^ c) 12
  let a := a + b + y
  let d := turn (d ^^^ a) 8
  let c := c + d
  let b := turn (b ^^^ c) 7
  (((v.set ia a).set ib b).set ic c).set id d

/-- the mixing steps of a round, each with the next two message words -/
def mixAll (v : Words) : List (Fin 16 × Fin 16 × Fin 16 × Fin 16) → List UInt32 → Words
  | lane :: lanes, x :: y :: words => mixAll (mix v lane x y) lanes words
  | _, _ => v

/-- some rounds, the message words being permuted between them -/
def rounds : Nat → Words → Words → Words
  | 0, v, _ => v
  | n + 1, v, m => rounds n (mixAll v lanes m.toList) (permutation.map fun i => m[i])

/-- the chaining words after one block -/
def compress (chain : Chain) (block : Words) (counter : UInt64) (size flags : UInt32) : Chain :=
  let v : Words := chain ++ (start.take 4 : Vector UInt32 4) ++
    (#v[counter.toUInt32, (counter >>> 32).toUInt32, size, flags] : Vector UInt32 4)
  let v := rounds 7 v block
  Vector.ofFn fun i : Fin 8 => v[i.val] ^^^ v[i.val + 8]

/-! ## the tree -/

structure Node where
  chain : Chain
  block : Words
  counter : UInt64
  size : UInt32
  flags : UInt32

/-- the chaining words of a node, with more flags -/
def Node.close (n : Node) (flags : UInt32) : Chain :=
  compress n.chain n.block n.counter n.size (n.flags ||| flags)

/-- the byte at a position, zero past the end -/
def byteAt (bytes : List UInt8) (i : Nat) : UInt32 := (bytes[i]?.getD 0).toUInt32

/-- a block of up to 64 bytes as words, the low byte first -/
def words (bytes : List UInt8) : Words :=
  Vector.ofFn fun i : Fin 16 =>
    byteAt bytes (4 * i) ||| (byteAt bytes (4 * i + 1) <<< 8) |||
      (byteAt bytes (4 * i + 2) <<< 16) ||| (byteAt bytes (4 * i + 3) <<< 24)

/-- the node of the blocks left of a chunk; `fuel` bounds their number -/
def blocksNode (counter : UInt64) : (fuel : Nat) → Chain → (flags : UInt32) → List UInt8 → Node
  | 0, chain, flags, bytes =>
    ⟨chain, words bytes, counter, bytes.length.toUInt32, flags ||| chunkEnd⟩
  | fuel + 1, chain, flags, bytes =>
    if bytes.length ≤ 64 then
      ⟨chain, words bytes, counter, bytes.length.toUInt32, flags ||| chunkEnd⟩
    else
      blocksNode counter fuel (compress chain (words (bytes.take 64)) counter 64 flags) 0
        (bytes.drop 64)

/-- the node of a chunk of up to 1024 bytes -/
def chunkNode (counter : UInt64) (bytes : List UInt8) : Node :=
  blocksNode counter 16 start chunkStart bytes

/-- the node above two subtrees -/
def parentNode (left right : Chain) : Node := ⟨start, left ++ right, 0, 64, parent⟩

/-- the largest power of two below `n`, for `n` of at least two; `fuel` bounds the doublings -/
def leftSize (n : Nat) : (fuel : Nat) → Nat → Nat
  | 0, p => p
  | fuel + 1, p => if 2 * p < n then leftSize n fuel (2 * p) else p

/-- the node of the bytes from chunk `counter` on; `fuel` bounds the height -/
def treeNode : (fuel : Nat) → (counter : Nat) → List UInt8 → Node
  | 0, counter, bytes => chunkNode counter.toUInt64 bytes
  | fuel + 1, counter, bytes =>
    if bytes.length ≤ 1024 then chunkNode counter.toUInt64 bytes
    else
      let chunks := (bytes.length + 1023) / 1024
      let left := leftSize chunks chunks 1
      parentNode ((treeNode fuel counter (bytes.take (left * 1024))).close 0)
        ((treeNode fuel (counter + left) (bytes.drop (left * 1024))).close 0)

/-! ## output -/

/-- the bytes of a word, the low one first -/
def bytesOf (w : UInt32) : List UInt8 :=
  [w.toUInt8, (w >>> 8).toUInt8, (w >>> 16).toUInt8, (w >>> 24).toUInt8]

def hash (bytes : List UInt8) : List UInt8 :=
  ((treeNode bytes.length 0 bytes).close root).toList.flatMap bytesOf

/-- the lower-case hexadecimal digit of a value below sixteen -/
def digit (n : Fin 16) : Char :=
  #v['0', '1', '2', '3', '4', '5', '6', '7', '8', '9', 'a', 'b', 'c', 'd', 'e', 'f'][n]

/-- two digits for each byte -/
def hexOf (bytes : List UInt8) : List Char :=
  bytes.flatMap fun b => [digit (Fin.ofNat 16 (b.toNat / 16)), digit (Fin.ofNat 16 b.toNat)]

def hex (bytes : List UInt8) : List Char := hexOf (hash bytes)

end StepRunner.Hash.Blake3
