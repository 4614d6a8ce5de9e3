/-!
# Lower case

The lower case of texts that are compared with ASCII names. Besides the capital letters of ASCII
only the Kelvin sign has a lower case that is an ASCII letter. All other characters stay as they
are: whatever their lower case is, it does not belong to an ASCII name.
-/

namespace Paywall.Text

/-- The lower case of a character, if that is ASCII. -/
def lowerChar (c : Char) : Char := if c = '\u212a' then 'k' else c.toLower

/-- The lower case of a text, as far as it is ASCII. -/
def lower (s : String) : String := String.ofList (s.toList.map lowerChar)

end Paywall.Text
