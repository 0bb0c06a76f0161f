namespace Likeness.Digest

abbrev Words (n : Nat) := Vector UInt32 n

-- The eight words that every chain starts from.
def start : Words 8 :=
  #v[0x6A09E667, 0xBB67AE85, 0x3C6EF372, 0xA54FF53A, 0x510E527F, 0x9B05688C, 0x1F83D9AB, 0x5BE0CD19]

-- Where each word of a block goes between two rounds.
def permutation : Vector (Fin 16) 16 :=
  #v[2, 6, 3, 10, 7, 0, 4, 13, 1, 11, 12, 5, 9, 14, 15, 8]

def permute (block : Words 16) : Words 16 := permutation.map (block[·])

def rotate (w : UInt32) (n : UInt32) : UInt32 := (w >>> n) ||| (w <<< (32 - n))

-- Mixes two words of the message into one column or diagonal of the state.
def mix (v : Words 16) (a b c d : Fin 16) (x y : UInt32) : Words 16 :=
  let va := v[a] + v[b] + x
  let vd := rotate (v[d] ^^^ va) 16
  let vc := v[c] + vd
  let vb := rotate (v[b] ^^^ vc) 12
  let va := va + vb + y
  let vd := rotate (vd ^^^ va) 8
  let vc := vc + vd
  let vb := rotate (vb ^^^ vc) 7
  (((v.set a va).set b vb).set c vc).set d vd

-- One round: the four columns, then the four diagonals.
def round (v : Words 16) (m : Words 16) : Words 16 :=
  let v := mix v 0 4 8 12 m[0] m[1]
  let v := mix v 1 5 9 13 m[2] m[3]
  let v := mix v 2 6 10 14 m[4] m[5]
  let v := mix v 3 7 11 15 m[6] m[7]
  let v := mix v 0 5 10 15 m[8] m[9]
  let v := mix v 1 6 11 12 m[10] m[11]
  let v := mix v 2 7 8 13 m[12] m[13]
  mix v 3 4 9 14 m[14] m[15]

def rounds : Nat → Words 16 → Words 16 → Words 16
  | 0, v, _ => v
  | n + 1, v, m => rounds n (round v m) (permute m)

-- A compression that is still to be done: it is needed with one more flag if it is the last.
structure Node where
  chain : Words 8
  block : Words 16
  counter : UInt64
  length : UInt32
  flags : UInt32

def chunkStart : UInt32 := 1
def chunkEnd : UInt32 := 2
def parent : UInt32 := 4
def root : UInt32 := 8

-- The first half of the compressed state, which is all that a digest of 256 bits uses.
def Node.compress (n : Node) (more : UInt32) : Words 8 :=
  let state : Words 16 := n.chain ++
    #v[start[0], start[1], start[2], start[3],
      n.counter.toUInt32, (n.counter >>> 32).toUInt32, n.length, n.flags ||| more]
  let v := rounds 7 state n.block
  Vector.ofFn fun (i : Fin 8) => v[i.val] ^^^ v[i.val + 8]

def Node.join (left right : Node) : Node :=
  ⟨start, left.compress 0 ++ right.compress 0, 0, 64, parent⟩

def wordOf (bytes : ByteArray) (place : Nat) : UInt32 :=
  let byte (i : Nat) : UInt32 := (bytes.data[place + i]?.getD 0).toUInt32
  byte 0 ||| (byte 1 <<< 8) ||| (byte 2 <<< 16) ||| (byte 3 <<< 24)

-- The words of a block of 64 bytes; what lies after the end of the bytes is 0.
def blockOf (bytes : ByteArray) (offset : Nat) : Words 16 :=
  Vector.ofFn fun (i : Fin 16) => wordOf bytes (offset + 4 * i.val)

-- The blocks of one chunk from `offset` on, of which `size` bytes are left.
def chunkBlocks (bytes : ByteArray) (counter : UInt64) (flags : UInt32) (chain : Words 8)
    (offset : Nat) : Nat → Nat → Node
  | 0, size => ⟨chain, blockOf bytes offset, counter, size.toUInt32, flags ||| chunkEnd⟩
  | more + 1, size =>
    let node : Node := ⟨chain, blockOf bytes offset, counter, 64, flags⟩
    chunkBlocks bytes counter 0 (node.compress 0) (offset + 64) more (size - 64)

-- The chunk of the given number: 1024 bytes, or what is left of the bytes.
def chunkNode (bytes : ByteArray) (number : Nat) : Node :=
  let offset := 1024 * number
  let size := min 1024 (bytes.size - offset)
  chunkBlocks bytes number.toUInt64 chunkStart start offset ((size - 1) / 64) size

-- A tree over `count` chunks from `first` on: its left part is the largest power of two that
-- leaves a chunk for the right part.
def tree (bytes : ByteArray) : Nat → Nat → Nat → Node
  | 0, first, _ => chunkNode bytes first
  | fuel + 1, first, count =>
    if count ≤ 1 then chunkNode bytes first
    else
      let left := 1 <<< (count - 1).log2
      (tree bytes fuel first left).join (tree bytes fuel (first + left) (count - left))

def hexDigits (byte : Nat) : List Char :=
  let digit (n : Nat) := Char.ofNat (if n < 10 then 48 + n else 87 + n)
  [digit (byte / 16), digit (byte % 16)]

-- The bytes of a word, the lowest first.
def wordHex (w : UInt32) : List Char :=
  [w, w >>> 8, w >>> 16, w >>> 24].flatMap fun part => hexDigits (part.toNat % 256)

-- The BLAKE3 digest of bytes, in lowercase hexadecimal digits.
def blake3 (bytes : ByteArray) : String :=
  let count := max 1 ((bytes.size + 1023) / 1024)
  String.ofList (((tree bytes count 0 count).compress root).toList.flatMap wordHex)

def ofText (s : String) : String := blake3 s.toUTF8

end Likeness.Digest
