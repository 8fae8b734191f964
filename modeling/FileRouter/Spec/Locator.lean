import FileRouter.Spec.HostAddress
import FileRouter.Text.Quoted
/-!
Locators: texts of the form `scheme://host/path;parameters?query#fragment`.

`Locator.read` cuts a text into the parts that name a provider, its target and its parameters. The
scheme is read in lower case, a fragment is dropped, and so are path parameters of the schemes that
have them. Controls and spaces in front of the text, and tabs and line ends anywhere, do not count.
-/

namespace FileRouter

/-- The parts of a locator that are of use: the scheme in lower case, the host and what follows it up
to the query, and the query. -/
structure Locator where
  scheme : Text
  host : Text
  path : Text
  query : Text
  deriving Repr, DecidableEq

namespace Locator

/-- The schemes whose last path segment may carry parameters behind a semicolon. -/
def parameterSchemes : List Text :=
  ["", "ftp", "hdl", "prospero", "http", "imap", "https", "shttp", "rtsp", "rtsps", "rtspu", "sip",
    "sips", "mms", "sftp", "tel"].map String.toList

/-- Whether a character may stand in the scheme of a locator. -/
def isSchemeChar (c : Char) : Bool :=
  c.isAlphanum || c == '+' || c == '-' || c == '.'

/-- The text without controls and spaces in front, and without tabs and line ends. -/
def cleaned (text : Text) : Text :=
  (text.dropWhile fun c => c.toNat ≤ 0x20).filter fun c => c != '\t' && c != '\r' && c != '\n'

/-- The scheme in lower case, and the rest of the text; no scheme when the text does not begin with
one. -/
def cutScheme (text : Text) : Text × Text :=
  let token := Text.before ':' text
  if text.elem ':' && (token.head?.any Char.isAlpha) && token.all isSchemeChar then
    (Text.asciiLower token, Text.after ':' text)
  else ([], text)

/-- Whether a character ends the host. -/
def endsHost (c : Char) : Bool := c == '/' || c == '?' || c == '#'

/-- The host behind two slashes, and the rest of the text; no host without the slashes. -/
def cutHost : Text → Text × Text
  | '/' :: '/' :: rest => (rest.takeWhile (!endsHost ·), rest.dropWhile (!endsHost ·))
  | text => ([], text)

/-- Characters that compatibility normalisation turns into a text with a slash, a question mark, a
number sign, an at sign or a colon. -/
def disguisedDelimiters : List Nat :=
  [0x2047, 0x2048, 0x2049, 0x2100, 0x2101, 0x2105, 0x2106, 0x2a74, 0xfe13, 0xfe16, 0xfe55, 0xfe56,
   0xfe5f, 0xfe6b, 0xff03, 0xff0f, 0xff1a, 0xff1f, 0xff20]

/-- What is wrong with a host in brackets, if anything. -/
def bracketFault? (host : Text) : Option Text :=
  let opened := host.elem '['
  let closed := host.elem ']'
  if opened != closed then some "Invalid IPv6 URL".toList
  else if opened then
    let address := Text.before ']' (Text.after '[' host)
    if address.head? = some 'v' then
      if HostAddress.isLaterVersion address then none
      else some "IPvFuture address is invalid".toList
    else if HostAddress.isVersion4 address then
      some "An IPv4 address cannot be in brackets".toList
    else if HostAddress.isVersion6 address then none
    else some (Text.quoted address ++ " does not appear to be an IPv4 or IPv6 address".toList)
  else none

/-- What is wrong with the characters of a host, if anything. -/
def characterFault? (host : Text) : Option Text :=
  if host.any fun c => disguisedDelimiters.contains c.toNat then
    some ("netloc '".toList ++ host ++
      "' contains invalid characters under NFKC normalization".toList)
  else none

/-- The path without the parameters of its last segment. -/
def dropParameters (path : Text) : Text :=
  Text.beforeLast '/' path ++ Text.before ';' (Text.afterLast '/' path)

/-- The parts of a locator, or what is wrong with its host. -/
def read (text : Text) : Except Text Locator :=
  let (scheme, rest) := cutScheme (cleaned text)
  let (host, rest) := cutHost rest
  match bracketFault? host with
  | some fault => .error fault
  | none =>
    let rest := Text.before '#' rest
    let path := Text.before '?' rest
    let query := Text.after '?' rest
    match characterFault? host with
    | some fault => .error fault
    | none =>
      let path := if parameterSchemes.contains scheme then dropParameters path else path
      .ok ⟨scheme, host, path, query⟩

end Locator

end FileRouter
