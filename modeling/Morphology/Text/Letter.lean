import Morphology.Text.LetterData
import Morphology.Text.Lowercase

/-! Letters and numerals of all scripts. -/

namespace Morphology.Chars

def isLetter (c : Char) : Bool := inRanges Text.letterRanges c

def isNumeral (c : Char) : Bool := inRanges Text.numeralRanges c

end Morphology.Chars
