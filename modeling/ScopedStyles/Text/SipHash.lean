namespace ScopedStyles.SipHash

structure State where
  v0 : UInt64
  v1 : UInt64
  v2 : UInt64
  v3 : UInt64
  deriving DecidableEq

def start : State :=
  ⟨0x736f6d6570736575, 0x646f72616e646f6d, 0x6c7967656e657261, 0x7465646279746573⟩

def rotateLeft (x : UInt64) (n : UInt64) : UInt64 :=
  x <<< n ||| x >>> (64 - n)

def State.round (s : State) : State :=
  let v0 := s.v0 + s.v1
  let v1 := rotateLeft s.v1 13 ^^^ v0
  let v0 := rotateLeft v0 32
  let v2 := s.v2 + s.v3
  let v3 := rotateLeft s.v3 16 ^^^ v2
  let v0 := v0 + v3
  let v3 := rotateLeft v3 21 ^^^ v0
  let v2 := v2 + v1
  let v1 := rotateLeft v1 17 ^^^ v2
  ⟨v0, v1, rotateLeft v2 32, v3⟩

def State.absorb (s : State) (word : UInt64) : State :=
  let s := { s with v3 := s.v3 ^^^ word }.round
  { s with v0 := s.v0 ^^^ word }

def State.finish (s : State) : UInt64 :=
  let s := { s with v2 := s.v2 ^^^ 0xff }.round.round.round
  s.v0 ^^^ s.v1 ^^^ s.v2 ^^^ s.v3

def wordOf (bytes : List UInt8) : UInt64 :=
  bytes.foldr (fun b w => w <<< 8 ||| b.toUInt64) 0

/-- Takes in full words, and then the rest with the length in the highest byte. -/
def State.absorbAll (length : Nat) (s : State) : List UInt8 → State
  | b0 :: b1 :: b2 :: b3 :: b4 :: b5 :: b6 :: b7 :: rest =>
    (s.absorb (wordOf [b0, b1, b2, b3, b4, b5, b6, b7])).absorbAll length rest
  | rest => s.absorb (wordOf rest ||| length.toUInt64 <<< 56)

def hashBytes (bytes : List UInt8) : UInt64 :=
  (start.absorbAll bytes.length bytes).finish

/-- SipHash-1-3 with a key of zeros. Behind the text a byte that no text holds marks its end. -/
def hashText (s : String) : UInt64 :=
  hashBytes (s.toUTF8.toList ++ [0xff])

def symbols : List Char :=
  "abcdefghijklmnopqrstuvwxyzABCDEFGHIJKLMNOPQRSTUVWXYZ1234567890_-".toList

/-- The low half of the hash in six symbols: its bytes, the least first, and four bits of zero. -/
def shortText (s : String) : String :=
  let low := (hashText s).toNat
  let byte (i : Nat) : Nat := low / Nat.pow 256 i % 256
  let bits := ((byte 0 * 256 + byte 1) * 256 + byte 2) * 256 + byte 3
  String.ofList <| [5, 4, 3, 2, 1, 0].map fun i =>
    symbols.getD (bits * 16 / Nat.pow 64 i % 64) 'a'

end ScopedStyles.SipHash
