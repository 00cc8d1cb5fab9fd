/-
The BLAKE3 hash of 32 bytes. The input is cut into chunks of 1024 bytes, each of which chains its blocks of 64 bytes; the
chunks are the leaves of a binary tree whose left subtrees hold the greatest power of two chunks that leaves some for the
right. The node at the root is compressed with a flag of its own.
-/
namespace ApiSurface.Blake3

/-- eight words that stand for a subtree -/
abbrev Chaining := Vector UInt32 8

/-- sixteen words of input -/
abbrev Block := Vector UInt32 16

/-! ## Compression -/

def initial : Chaining :=
  #v[0x6A09E667, 0xBB67AE85, 0x3C6EF372, 0xA54FF53A, 0x510E527F, 0x9B05688C, 0x1F83D9AB, 0x5BE0CD19]

/-- the order in which the words of a block come in the next round -/
def schedule : Vector (Fin 16) 16 := #v[2, 6, 3, 10, 7, 0, 4, 13, 1, 11, 12, 5, 9, 14, 15, 8]

def rotate (x n : UInt32) : UInt32 := (x >>> n) ||| (x <<< (32 - n))

/-- mix two words of input into four words of the state -/
def mix (s : Block) (a b c d : Fin 16) (x y : UInt32) : Block :=
  let a₁ := s[a] + s[b] + x
  let d₁ := rotate (s[d] ^^^ a₁) 16
  let c₁ := s[c] + d₁
  let b₁ := rotate (s[b] ^^^ c₁) 12
  let a₂ := a₁ + b₁ + y
  let d₂ := rotate (d₁ ^^^ a₂) 8
  let c₂ := c₁ + d₂
  let b₂ := rotate (b₁ ^^^ c₂) 7
  (((s.set a a₂).set b b₂).set c c₂).set d d₂

/-- one round: the columns, then the diagonals -/
def round (s m : Block) : Block :=
  let s := mix s 0 4 8 12 m[0] m[1]
  let s := mix s 1 5 9 13 m[2] m[3]
  let s := mix s 2 6 10 14 m[4] m[5]
  let s := mix s 3 7 11 15 m[6] m[7]
  let s := mix s 0 5 10 15 m[8] m[9]
  let s := mix s 1 6 11 12 m[10] m[11]
  let s := mix s 2 7 8 13 m[12] m[13]
  mix s 3 4 9 14 m[14] m[15]

/-- the words of a block in the order of the next round -/
def permute (m : Block) : Block := schedule.map fun i => m[i]

def rounds : Nat → Block → Block → Block
  | 0, s, _ => s
  | n + 1, s, m => rounds n (round s m) (permute m)

/-- what is compressed for a node of the tree, its flags apart from the root's -/
structure Node where
  chaining : Chaining
  block : Block
  /-- the number of the chunk -/
  counter : UInt64
  /-- the number of bytes in the block -/
  size : UInt32
  flags : UInt32

/-- the flag of a chunk's first block -/
def chunkStart : UInt32 := 1

/-- the flag of a chunk's last block -/
def chunkEnd : UInt32 := 2

def parent : UInt32 := 4

def root : UInt32 := 8

/-- compress a node with further flags -/
def Node.compress (n : Node) (flags : UInt32) : Chaining :=
  let start : Block := n.chaining ++
    #v[initial[0], initial[1], initial[2], initial[3], n.counter.toUInt32, (n.counter >>> 32).toUInt32, n.size,
      n.flags ||| flags]
  let s := rounds 7 start n.block
  Vector.ofFn fun (i : Fin 8) => s[i.val] ^^^ s[i.val + 8]

/-! ## Chunks and tree -/

/-- the words of some bytes, four a word, least first -/
def words : List UInt8 → List UInt32
  | a :: b :: c :: d :: rest =>
    (a.toUInt32 ||| (b.toUInt32 <<< 8) ||| (c.toUInt32 <<< 16) ||| (d.toUInt32 <<< 24)) :: words rest
  | _ => []

/-- at most 64 bytes as a block, filled up with zeros -/
def blockOf (bytes : List UInt8) : Block :=
  let filled := words (bytes ++ List.replicate (64 - bytes.length) 0)
  Vector.ofFn fun (i : Fin 16) => filled.getD i.val 0

/-- the node of a chunk, after the blocks before -/
def chunkNode (counter : UInt64) (chaining : Chaining) (flags : UInt32) (bytes : List UInt8) : Node :=
  if _ : bytes.length ≤ 64 then
    ⟨chaining, blockOf bytes, counter, bytes.length.toUInt32, flags ||| chunkEnd⟩
  else
    let node : Node := ⟨chaining, blockOf (bytes.take 64), counter, 64, flags⟩
    chunkNode counter (node.compress 0) 0 (bytes.drop 64)
termination_by bytes.length
decreasing_by simp only [List.length_drop]; omega

/-- the node over two subtrees -/
def parentNode (left right : Node) : Node :=
  ⟨initial, left.compress 0 ++ right.compress 0, 0, 64, parent⟩

/-- the chunks of some bytes; no bytes make one empty chunk -/
def chunks (bytes : List UInt8) : List (List UInt8) :=
  if _ : bytes.length ≤ 1024 then [bytes]
  else bytes.take 1024 :: chunks (bytes.drop 1024)
termination_by bytes.length
decreasing_by simp only [List.length_drop]; omega

/-- the tree over chunks, the first of which has the number `first` -/
def tree (first : Nat) (leaves : List (List UInt8)) : Node :=
  if _ : leaves.length ≤ 1 then chunkNode first.toUInt64 initial chunkStart (leaves.headD [])
  else
    let size := Nat.pow 2 (leaves.length - 1).log2
    parentNode (tree first (leaves.take size)) (tree (first + size) (leaves.drop size))
termination_by leaves.length
decreasing_by
  · have : Nat.pow 2 (leaves.length - 1).log2 ≤ leaves.length - 1 := Nat.log2_self_le (by omega)
    simp only [List.length_take]
    omega
  · have : 0 < Nat.pow 2 (leaves.length - 1).log2 := Nat.two_pow_pos _
    simp only [List.length_drop]
    omega

/-! ## Text -/

/-- the two lowercase hexadecimal digits of a byte -/
def hexByte (b : UInt8) : List Char := [Nat.digitChar (b.toNat / 16), Nat.digitChar (b.toNat % 16)]

/-- the hexadecimal digits of a word, least byte first -/
def hexWord (w : UInt32) : List Char :=
  hexByte w.toUInt8 ++ hexByte (w >>> 8).toUInt8 ++ hexByte (w >>> 16).toUInt8 ++ hexByte (w >>> 24).toUInt8

/-- the hash of some bytes, in hexadecimal digits -/
def hash (bytes : List UInt8) : String :=
  String.ofList (((tree 0 (chunks bytes)).compress root).toList.flatMap hexWord)

/-- the hash of a text in UTF-8 -/
def hashText (text : String) : String := hash text.toUTF8.toList

end ApiSurface.Blake3
