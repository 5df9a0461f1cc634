/-!
# Machine words

Widths, counts and whole numbers in files are held in words of 64 bits. What does not fit one is
refused or, where nothing can be refused, ends the program.
-/

namespace Superstep

/-- One more than the greatest number a word holds: two to the sixty-fourth. -/
def wordLimit : Nat := 18446744073709551616

/-- One more than the greatest number a signed word holds: two to the sixty-third. -/
def signedLimit : Nat := 9223372036854775808

end Superstep
