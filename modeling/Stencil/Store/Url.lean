/-
Addresses of the web.

What an address is fetched with is told by its scheme, which stands before the first colon.
Blanks and control characters around an address do not belong to it, nor do tabs and line breaks
inside it.  Only an address of the web can be sent a request, and only if it names a host.
-/
namespace Stencil.Url

/-- Whether a character is left out at both ends of an address. -/
def isMargin (c : Char) : Bool := c ≤ ' '

/-- Whether a character is left out wherever it stands. -/
def isBreak (c : Char) : Bool := c = '\t' || c = '\n' || c = '\r'

/-- An address without the characters that do not belong to it. -/
def clean (address : List Char) : List Char :=
  let started := address.dropWhile isMargin
  (started.reverse.dropWhile isMargin).reverse.filter (!isBreak ·)

/-- Whether a character may stand in a scheme. -/
def isSchemeChar (c : Char) : Bool := c.isAlphanum || c = '+' || c = '-' || c = '.'

/-- The scheme of an address in small letters, and what follows the colon.  A scheme starts with a
letter. -/
def split? (address : List Char) : Option (List Char × List Char) :=
  let scheme := address.takeWhile isSchemeChar
  match scheme, address.dropWhile isSchemeChar with
  | c :: _, ':' :: rest => if c.isAlpha then some (scheme.map Char.toLower, rest) else none
  | _, _ => none

/-- Whether a character divides the parts of an address that names a host. -/
def isSlash (c : Char) : Bool := c = '/' || c = '\\'

/-- Whether a character ends the part of an address that names the host. -/
def endsAuthority (c : Char) : Bool := isSlash c || c = '?' || c = '#'

/-- Whether a character cannot stand in the name of a host. -/
def isForbiddenInHost (c : Char) : Bool :=
  isMargin c || c = '\x7F' || ['<', '>', '[', ']', '^', '|', '%'].contains c

/-- Whether a text is a port: a number of 16 bits, or nothing. -/
def isPort (text : List Char) : Bool :=
  text.all Char.isDigit &&
    text.foldl (fun n c => 10 * n + (c.toNat - '0'.toNat)) 0 < 65536

/-- Whether a text is a host, alone or with a port behind a colon. -/
def isHost (text : List Char) : Bool :=
  match text with
  | '[' :: literal =>
    match literal.dropWhile (· ≠ ']') with
    | [']'] => true
    | ']' :: ':' :: port => isPort port
    | _ => false
  | _ =>
    let name := text.takeWhile (· ≠ ':')
    !name.isEmpty && !name.any isForbiddenInHost && isPort ((text.dropWhile (· ≠ ':')).drop 1)

/-- The schemes of addresses that always name a host. -/
def hostSchemes : List (List Char) := ["http", "https", "ws", "wss", "ftp"].map String.toList

/-- The schemes that a request can be sent with. -/
def webSchemes : List (List Char) := ["http", "https"].map String.toList

/-- Why nothing can be fetched from an address. -/
inductive Refusal where
  /-- It is no absolute address. -/
  | unreadable
  /-- It is not of the web. -/
  | unsupported (url : List Char)
  /-- No host answers. -/
  | unanswered (url : List Char)

/-- The refusal of an address that has to name a host: any number of slashes may stand before
it, and a path follows it. -/
def refuseHost (scheme rest : List Char) : Refusal :=
  let text := rest.dropWhile isSlash
  let authority := text.takeWhile (!endsAuthority ·)
  let after := text.dropWhile (!endsAuthority ·)
  let host := (authority.reverse.takeWhile (· ≠ '@')).reverse
  if isHost host then
    let path :=
      match after with
      | c :: path => if isSlash c then '/' :: path else '/' :: c :: path
      | [] => ['/']
    if webSchemes.contains scheme then
      .unanswered (scheme ++ "://".toList ++ host.map Char.toLower ++ path)
    else .unsupported (scheme ++ "://".toList ++ authority ++ path)
  else .unreadable

/-- The refusal of an address. -/
def refuse (address : List Char) : Refusal :=
  match split? (clean address) with
  | none => .unreadable
  | some (scheme, rest) =>
    if hostSchemes.contains scheme then refuseHost scheme rest
    else .unsupported (scheme ++ ':' :: rest)

/-- The wording of a refusal. -/
def Refusal.message : Refusal → String
  | unreadable => "builder error"
  | unsupported url => "builder error for url (" ++ String.ofList url ++ ")"
  | unanswered url => "error sending request for url (" ++ String.ofList url ++ ")"

end Stencil.Url
