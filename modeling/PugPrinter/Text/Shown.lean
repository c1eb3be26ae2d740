import PugPrinter.Text.Printable
import PugPrinter.Text.Quotation

/-!
Text shown in a message: between quotes, on one line, with everything unprintable spelled out.
-/

set_option autoImplicit false

namespace PugPrinter.Text

def showPoint (mark : Quote) (c : CodePoint) : Text :=
  let code := c.code
  if c == mark.mark || c == '\\' then ['\\', c]
  else if c == '\t' then ['\\', 't']
  else if c == '\n' then ['\\', 'n']
  else if c == '\r' then ['\\', 'r']
  else if code < 0x20 || code == 0x7f then '\\' :: 'x' :: hex 2 code
  else if code < 0x7f || isPrintable code then [c]
  else if code ≤ 0xff then '\\' :: 'x' :: hex 2 code
  else if code ≤ 0xffff then '\\' :: 'u' :: hex 4 code
  else '\\' :: 'U' :: hex 8 code

/-- The mark that a message puts around a text: double only when it saves a backslash. -/
def shownMark (t : Text) : Quote :=
  if t.contains Quote.single.mark && !t.contains Quote.double.mark then .double else .single

def shown (t : Text) : Text :=
  enclose [t.shownMark.mark] (t.flatMap (showPoint t.shownMark))

end PugPrinter.Text
