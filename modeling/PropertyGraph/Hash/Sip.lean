/-!
# Short-input hashing

The hash SipHash-1-3 under the key zero of a message that consists of whole 64-bit words, written
with the least byte first.
-/

namespace PropertyGraph.Sip

/-- The four words that a message is mixed into. -/
structure State where
  a : UInt64
  b : UInt64
  c : UInt64
  d : UInt64

/-- The word with its bits turned to the left. -/
def turn (x : UInt64) (bits : UInt64) : UInt64 :=
  (x <<< bits) ||| (x >>> (64 - bits))

/-- The words before any message. -/
def start : State :=
  ⟨0x736f6d6570736575, 0x646f72616e646f6d, 0x6c7967656e657261, 0x7465646279746573⟩

/-- One round of mixing. -/
def State.mix (s : State) : State :=
  let a := s.a + s.b
  let b := turn s.b 13 ^^^ a
  let a := turn a 32
  let c := s.c + s.d
  let d := turn s.d 16 ^^^ c
  let a := a + d
  let d := turn d 21 ^^^ a
  let c := c + b
  let b := turn b 17 ^^^ c
  ⟨a, b, turn c 32, d⟩

/-- One word of the message, with a single round. -/
def State.absorb (s : State) (word : UInt64) : State :=
  let s := State.mix { s with d := s.d ^^^ word }
  { s with a := s.a ^^^ word }

/-- The hash of some words; their number of bytes is absorbed last, before three final rounds. -/
def hash (words : List UInt64) : UInt64 :=
  let length := UInt64.ofNat (8 * words.length) <<< 56
  let s := (words.foldl State.absorb start).absorb length
  let s := State.mix (State.mix (State.mix { s with c := s.c ^^^ 0xff }))
  s.a ^^^ s.b ^^^ s.c ^^^ s.d

end PropertyGraph.Sip
