/-!
# Texts without addresses

An object that has no text of its own is shown by its kind and its address, as in
`#<cons 0x7f21>`. The address says nothing outside the run it comes from, so answers leave it out:
the same object reads `#<cons 0x?>`, wherever in a text it stands.
-/

namespace Substrate.Text

/-- The characters that names of kinds are made of. -/
def isKindLetter (c : Char) : Bool := c.isLower || c == '-'

/-- The digits of addresses. -/
def isAddressDigit (c : Char) : Bool := c.isDigit || ('a' ≤ c && c ≤ 'f')

/-- What an address is replaced by, from the blank in front of it to the bracket behind it. -/
def noAddress : List Char := " 0x?>".toList

/-- Masks the address that follows a kind at the start of the text. Without a kind, a digit or the
closing bracket there is no address. -/
def maskFirst (text : List Char) : List Char :=
  match text.takeWhile isKindLetter, text.dropWhile isKindLetter with
  | first :: kind, ' ' :: '0' :: 'x' :: digit :: rest =>
    match rest.dropWhile isAddressDigit with
    | '>' :: behind => if isAddressDigit digit then first :: kind ++ noAddress ++ behind else text
    | _ => text
  | _, _ => text

/-- Masks every address in the text. -/
def masked (text : String) : String :=
  match text.splitOn "#<" with
  | [] => text
  | front :: objects =>
    String.intercalate "#<" (front :: objects.map fun t => String.ofList (maskFirst t.toList))

end Substrate.Text
