-- The bounds of whole numbers in words of 64 bits.

namespace Likeness.Number

-- The least number that is too large for a word without a sign.
def wordLimit : Nat := 1 <<< 64

-- The least number that is too large for a word with a sign. Its negation still fits.
def signedLimit : Nat := 1 <<< 63

end Likeness.Number
