/-! What can be wrong with the text of a pattern. -/

namespace Morphology

inductive PatternError where
  | tooDeep
  | tooLarge
  | openGroup
  | openQuestion
  | unopenedGroup
  | lookAround
  | emptyFlags
  | missingGroupName
  | badGroupName
  | openGroupName
  | emptyGroupName
  | repeatedGroupName
  | unknownFlag
  | repeatedNegation
  | repeatedFlag
  | openFlags
  | danglingNegation
  | noDigits
  | badNumber
  | badDigitInBraces
  | openBraces
  | emptyBraces
  | badNumberInBraces
  | openFixed
  | badDigitFixed
  | badFixed
  | openHex
  | openEscape
  | backreference
  | unicodeClass
  | unknownEscape
  | nothingToRepeat
  | nothingToCount
  | openCount
  | openCountLow
  | openCountComma
  | openCountRange
  | badCount
  | badCountRange
  | openClassItem
  | badRangeItem
  | badClassItem
  | openClassDash
  | openClassNegation
  | openClassBracket
  | badRange
  | openClass
  | nestedClass
  | classIntersection
  | classDifference
  | classSymmetricDifference
  | openWordBoundary
  | unknownWordBoundary
  | endInBraces
  deriving DecidableEq, Repr

def PatternError.message : PatternError → String
  | tooDeep => "pattern has too much nesting"
  | tooLarge => "compiled regex exceeded size limit"
  | openGroup => "found open group without closing ')'"
  | openQuestion => "expected closing ')', but got end of pattern"
  | unopenedGroup => "found closing ')' without matching '('"
  | lookAround => "look-around is not supported"
  | emptyFlags => "empty flag directive '(?)' is not allowed"
  | missingGroupName => "expected capture group name, but got end of pattern"
  | badGroupName => "invalid group name"
  | openGroupName => "expected end of capture group name, but got end of pattern"
  | emptyGroupName => "empty capture group names are not allowed"
  | repeatedGroupName => "duplicate capture group name"
  | unknownFlag => "unrecognized inline flag"
  | repeatedNegation => "inline flag negation cannot be repeated"
  | repeatedFlag => "duplicate inline flag is not allowed"
  | openFlags => "expected ':' or ')' to end inline flags, but got end of pattern"
  | danglingNegation => "inline flags cannot end with negation directive"
  | noDigits => "expected decimal number, but found no digits"
  | badNumber => "got invalid decimal number"
  | badDigitInBraces => "expected hexadecimal number in braces, but got non-hex digit"
  | openBraces => "expected hexadecimal number, but saw end of pattern before closing brace"
  | emptyBraces => "expected hexadecimal number in braces, but got no digits"
  | badNumberInBraces => "got invalid hexadecimal number in braces"
  | openFixed => "expected fixed length hexadecimal number, but saw end of pattern first"
  | badDigitFixed => "expected fixed length hexadecimal number, but got non-hex digit"
  | badFixed => "got invalid fixed length hexadecimal number"
  | openHex => "expected hexadecimal number, but saw end of pattern first"
  | openEscape => "saw start of escape sequence, but saw end of pattern before it finished"
  | backreference => "backreferences are not supported"
  | unicodeClass => "Unicode character classes are not supported"
  | unknownEscape => "unrecognized escape sequence"
  | nothingToRepeat => "uncounted repetition operator must be applied to a sub-expression"
  | nothingToCount => "counted repetition operator must be applied to a sub-expression"
  | openCount => "found unclosed counted repetition operator"
  | openCountLow => "found incomplete and unclosed counted repetition operator"
  | openCountComma => "found counted repetition operator with a comma that is unclosed"
  | openCountRange => "found counted repetition with min and max that is unclosed"
  | badCount => "expected closing brace for counted repetition, but got something else"
  | badCountRange => "found counted repetition with a min bigger than its max"
  | openClassItem => "non-empty character class has no closing bracket"
  | badRangeItem => "character class ranges must start and end with a single character"
  | badClassItem => "invalid escape sequence in character class"
  | openClassDash => "non-empty character class has no closing bracket after dash"
  | openClassNegation => "negated character class has no closing bracket"
  | openClassBracket => "character class begins with literal ']' but has no closing bracket"
  | badRange => "invalid range in character class"
  | openClass => "found unclosed character class"
  | nestedClass => "nested character classes are not supported"
  | classIntersection => "character class intersection is not supported"
  | classDifference => "character class difference is not supported"
  | classSymmetricDifference => "character class symmetric difference is not supported"
  | openWordBoundary => "special word boundary assertion is unclosed or has an invalid character"
  | unknownWordBoundary => "special word boundary assertion is unrecognized"
  | endInBraces => "found start of special word boundary or repetition without an end"

end Morphology
