import LedgerWire.Bytes

/-!
The SHA-2 construction, over words of either size. A variant gives the word operations and the
constants; padding, the message schedule and the rounds are common to both.
-/

namespace LedgerWire.Digest

structure State (W : Type) where
  a : W
  b : W
  c : W
  d : W
  e : W
  f : W
  g : W
  h : W

def State.toList {W : Type} (s : State W) : List W :=
  [s.a, s.b, s.c, s.d, s.e, s.f, s.g, s.h]

/-- What one size of word brings to the construction. `stirA` and `stirE` mix a working word,
`spreadLow` and `spreadHigh` a word of the message schedule. -/
structure Variant (W : Type) where
  wordBytes : Nat
  ofNat : Nat → W
  toNat : W → Nat
  add : W → W → W
  choose : W → W → W → W
  majority : W → W → W → W
  stirA : W → W
  stirE : W → W
  spreadLow : W → W
  spreadHigh : W → W
  roundConstants : List W
  initial : State W

namespace Variant
variable {W : Type} (v : Variant W)

def blockBytes : Nat := 16 * v.wordBytes

def pad (message : Bytes) : Bytes :=
  let tail := 1 + 2 * v.wordBytes
  let zeros := (v.blockBytes - (message.length + tail) % v.blockBytes) % v.blockBytes
  message ++ 0x80 :: List.replicate zeros 0 ++ beBytes (2 * v.wordBytes) (8 * message.length)

def words : (count : Nat) → Bytes → List W
  | 0, _ => []
  | count + 1, bytes =>
    v.ofNat (beValue (bytes.take v.wordBytes)) :: words count (bytes.drop v.wordBytes)

def advance : List W → List W
  | w0 :: w1 :: w2 :: w3 :: w4 :: w5 :: w6 :: w7 :: w8 :: w9 :: w10 :: w11 :: w12 :: w13 :: w14 ::
      w15 :: _ =>
    let next := v.add (v.add (v.spreadHigh w14) w9) (v.add (v.spreadLow w1) w0)
    [w1, w2, w3, w4, w5, w6, w7, w8, w9, w10, w11, w12, w13, w14, w15, next]
  | short => short

def round (k w : W) (s : State W) : State W :=
  let t1 := v.add (v.add (v.add s.h (v.stirE s.e)) (v.choose s.e s.f s.g)) (v.add k w)
  let t2 := v.add (v.stirA s.a) (v.majority s.a s.b s.c)
  ⟨v.add t1 t2, s.a, s.b, s.c, v.add s.d t1, s.e, s.f, s.g⟩

/-- A round for each constant, the window giving one schedule word at a time. -/
def rounds : (constants window : List W) → State W → State W
  | k :: ks, w :: ws, s => rounds ks (v.advance (w :: ws)) (v.round k w s)
  | _, _, s => s

def compress (s : State W) (block : Bytes) : State W :=
  let t := v.rounds v.roundConstants (v.words 16 block) s
  ⟨v.add s.a t.a, v.add s.b t.b, v.add s.c t.c, v.add s.d t.d,
   v.add s.e t.e, v.add s.f t.f, v.add s.g t.g, v.add s.h t.h⟩

def absorb : (count : Nat) → Bytes → State W → State W
  | 0, _, s => s
  | count + 1, bytes, s =>
    absorb count (bytes.drop v.blockBytes) (v.compress s (bytes.take v.blockBytes))

def hash (message : Bytes) : Bytes :=
  let padded := v.pad message
  let final := v.absorb (padded.length / v.blockBytes) padded v.initial
  final.toList.flatMap fun w => beBytes v.wordBytes (v.toNat w)

end Variant

end LedgerWire.Digest
