/-!
# Doubles

A double is kept as its 64 bits, because there are many doubles that are no number, and a value
that is stored and read again has to keep which of them it was.  The sign is a bit of its own, so a
change of sign concerns it alone.  Every other operation on a NaN gives this NaN made quiet, the
first of two; an operation without a result gives the NaN `invalid`.

Equality and order are those of numbers: zeros of both signs are equal, a NaN is not even equal to
itself.
-/

namespace PropertyGraph

/-- A number of 64 bits with a binary point. -/
structure Double where
  bits : UInt64
deriving Inhabited, Repr

namespace Double

/-! ## Bits -/

/-- The bit that is set in a negative double. -/
def signBit : UInt64 := 0x8000000000000000

/-- The bit that is set in a quiet NaN. -/
def quietBit : UInt64 := 0x0008000000000000

/-- The infinity above all numbers; the bits of a NaN lie beyond it. -/
def infinity : Double := ⟨0x7ff0000000000000⟩

/-- The NaN that is written as a word. -/
def nan : Double := ⟨0x7ff8000000000000⟩

/-- The NaN of an operation that has no result, such as zero by zero. -/
def invalid : Double := ⟨0xfff8000000000000⟩

/-- The same number with the sign bit cleared. -/
def abs (x : Double) : Double :=
  ⟨x.bits &&& 0x7fffffffffffffff⟩

/-- The same number with the sign bit changed. -/
def neg (x : Double) : Double :=
  ⟨x.bits ^^^ signBit⟩

instance : Neg Double := ⟨neg⟩

/-- Is it no number? -/
def isNaN (x : Double) : Bool :=
  infinity.bits < x.abs.bits

/-- Is it an infinity of either sign? -/
def isInfinite (x : Double) : Bool :=
  x.abs.bits == infinity.bits

/-- Is it a number other than an infinity? -/
def isFinite (x : Double) : Bool :=
  x.abs.bits < infinity.bits

/-- The NaN that an operation gives for a NaN operand. -/
def quiet (x : Double) : Double :=
  ⟨x.bits ||| quietBit⟩

/-! ## Conversions -/

/-- The number for the machine to compute with, which forgets what NaN it is. -/
def toFloat (x : Double) : Float :=
  .ofBits x.bits

/-- The double of a result of the machine. -/
def ofFloat (x : Float) : Double :=
  if x.isNaN then invalid else ⟨x.toBits⟩

/-- The double nearest to an integer: that of its magnitude, with its sign. -/
def ofInt64 (n : Int64) : Double :=
  let magnitude := ofFloat (UInt64.ofNat n.toInt.natAbs).toFloat
  if n < 0 then -magnitude else magnitude

/-- The double nearest to a natural number. -/
def ofNat (n : Nat) : Double :=
  ofFloat (Float.ofNat n)

instance : OfScientific Double where
  ofScientific digits negative exponent := ofFloat (.ofScientific digits negative exponent)

/-! ## Comparison -/

instance : BEq Double := ⟨fun x y => x.toFloat == y.toFloat⟩

instance : LT Double := ⟨fun x y => x.toFloat < y.toFloat⟩

instance : DecidableLT Double := fun x y => inferInstanceAs (Decidable (x.toFloat < y.toFloat))

/-! ## Arithmetic -/

/-- An operation of one operand. -/
def map (f : Float → Float) (x : Double) : Double :=
  if x.isNaN then x.quiet else ofFloat (f x.toFloat)

/-- An operation of two operands. -/
def map₂ (f : Float → Float → Float) (x y : Double) : Double :=
  if x.isNaN then x.quiet
  else if y.isNaN then y.quiet
  else ofFloat (f x.toFloat y.toFloat)

instance : Add Double := ⟨map₂ (· + ·)⟩

instance : Sub Double := ⟨map₂ (· - ·)⟩

instance : Mul Double := ⟨map₂ (· * ·)⟩

instance : Div Double := ⟨map₂ (· / ·)⟩

/-- A power; the power zero of anything and any power of one are one, also beside a NaN. -/
def pow (x y : Double) : Double :=
  let power := x.toFloat.pow y.toFloat
  if power.isNaN then map₂ Float.pow x y else ofFloat power

/-- The least whole number that is not below. -/
def ceil : Double → Double := map Float.ceil

/-- The greatest whole number that is not above. -/
def floor : Double → Double := map Float.floor

/-- The nearest whole number, of two the one farther from zero. -/
def round : Double → Double := map Float.round

/-- The square root. -/
def sqrt : Double → Double := map Float.sqrt

/-! ## Lemmas -/

theorem neg_neg (x : Double) : - -x = x := by
  show (⟨x.bits ^^^ signBit ^^^ signBit⟩ : Double) = x
  rw [UInt64.xor_assoc, UInt64.xor_self, UInt64.xor_zero]

end Double

end PropertyGraph
