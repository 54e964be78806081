import TagFill.Text.Utf8
import TagFill.Yaml.Scalar

/-! # YAML tags

A tag is a handle, which a directive gives a meaning to, and a suffix. Escapes may spell any bytes,
so suffixes and whole tags are bytes and not always text.
-/

namespace TagFill.Yaml

/-! ## Parts of tags -/

/-- Characters of a suffix. Between angle brackets the marks of lists are allowed too. -/
def isUriChar (bracketed : Bool) (c : Char) : Bool :=
  isNameChar c || ";/?:@&=+$.%!~*'()".toList.contains c || (bracketed && [',', '[', ']'].contains c)

/-- How many bytes follow the first byte of a UTF-8 sequence, by its leading bits. -/
def trailing? (lead : UInt8) : Option Nat :=
  if lead < 0x80 then some 0
  else if lead < 0xC0 then none
  else if lead < 0xE0 then some 1
  else if lead < 0xF0 then some 2
  else if lead < 0xF8 then some 3
  else none

/-- The bytes that a suffix stands for. Escapes come in whole sequences, and `pending` bytes of the
last one are still to come. -/
def unescape? (pending : Nat) : List Char → Option Bytes
  | [] => if pending == 0 then some [] else none
  | '%' :: high :: low :: rest => do
    let b := UInt8.ofNat ((← hexValue? high) * 16 + (← hexValue? low))
    let pending ←
      match pending with
      | 0 => trailing? b
      | left + 1 => if Utf8.isContinuation b then some left else none
    return b :: (← unescape? pending rest)
  | c :: rest => do
    guard (pending == 0 && c != '%')
    return UInt8.ofNat c.toNat :: (← unescape? 0 rest)

/-- The longest run of such characters, which may be empty. A zero byte ends what it stands for. -/
def uri? (bracketed : Bool) (c : Cursor) : Option (Bytes × Cursor) := do
  let run := c.rest.takeWhile (isUriChar bracketed)
  return ((← unescape? 0 run).takeWhile (· != 0), c.skip run.length)

/-- A run that is not empty. -/
def someUri? (bracketed : Bool) (c : Cursor) : Option (Bytes × Cursor) := do
  guard (c.peek?.any (isUriChar bracketed))
  uri? bracketed c

/-- A `!`, and the name behind it with another `!` where that closes the name. -/
def leadingHandle (c : Cursor) : String × Cursor :=
  let name := c.next.rest.takeWhile isNameChar
  let after := c.next.skip name.length
  if after.peek? == some '!' then (String.ofList ('!' :: name ++ ['!']), after.next)
  else (String.ofList ('!' :: name), after)

/-- Whether a name between two `!` was read, and not only the start of a suffix. -/
def isNamedHandle (handle : String) : Bool := handle.length > 1 && handle.endsWith "!"

/-! ## Tags -/

/-- With an empty handle the suffix is the whole tag. -/
structure Tag where
  handle : String
  suffix : Bytes
  deriving DecidableEq

namespace Tag

/-- The tag that says a scalar is no more than text. -/
def plainText : Bytes := Bytes.ofText "!"

/-- A suffix in angle brackets, behind a named handle, or behind a single `!`. -/
def read? (c : Cursor) : Option (Tag × Cursor) := do
  if c.next.peek? == some '<' then
    let (uri, c) ← someUri? true (c.skip 2)
    guard (c.peek? == some '>')
    return (⟨"", uri⟩, c.next)
  let (start, c) := leadingHandle c
  if isNamedHandle start then
    let (uri, c) ← someUri? false c
    return (⟨start, uri⟩, c)
  let (uri, c) ← uri? false c
  let suffix := (Bytes.ofText start).drop 1 ++ uri
  return (if suffix.isEmpty then ⟨"", plainText⟩ else ⟨"!", suffix⟩, c)

end Tag

/-! ## Directives -/

/-- What a line with `%` says about the document behind it. -/
inductive Directive
  | version (major minor : Nat)
  /-- Tags with this handle start with these bytes. -/
  | handle (name : String) (start : Bytes)
  deriving DecidableEq

namespace Directive

/-- At most nine digits. -/
def number? (c : Cursor) : Option (Nat × Cursor) := do
  let digits := c.rest.takeWhile Char.isDigit
  guard (!digits.isEmpty && digits.length ≤ 9)
  return (digits.foldl (fun n d => n * 10 + (d.toNat - 0x30)) 0, c.skip digits.length)

/-- The rest of a `%YAML` line. -/
def version? (c : Cursor) : Option (Directive × Cursor) := do
  let (major, c) ← number? (c.skipWhile isBlank)
  guard (c.peek? == some '.')
  let (minor, c) ← number? c.next
  return (.version major minor, c)

/-- The rest of a `%TAG` line. -/
def handle? (c : Cursor) : Option (Directive × Cursor) := do
  let c := c.skipWhile isBlank
  guard (c.peek? == some '!')
  let (name, c) := leadingHandle c
  guard (isNamedHandle name || name == "!")
  guard (c.peek?.any isBlank)
  let (start, c) ← someUri? true (c.skipWhile isBlank)
  guard (endsWord c.rest)
  return (.handle name start, c)

/-- A whole line. There are no other directives. -/
def read? (c : Cursor) : Option (Directive × Cursor) := do
  let name := c.next.rest.takeWhile isNameChar
  let c := c.next.skip name.length
  guard (endsWord c.rest)
  let (directive, c) ←
    match String.ofList name with
    | "YAML" => version? c
    | "TAG" => handle? c
    | _ => none
  return (directive, ← c.pastLine?)

end Directive

end TagFill.Yaml
