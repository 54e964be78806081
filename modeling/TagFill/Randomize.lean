import TagFill.Pass
import TagFill.Random.Source

/-! # Passes call by call

A pass as it is carried out. One buffer takes all that it writes, and the source goes from call to
call. Each function hands a refusal on to the one that called it, with the buffer as it is by then.
-/

namespace TagFill

def LengthSpec.resolve : LengthSpec → Source → Drawn (Option Nat)
  | .absent, s => (.ok none, s)
  | .fixed n, s => (.ok (some n), s)
  | .range low high, s =>
    match s.ordered low high with
    | (.ok n, s) => (.ok (some n), s)
    | (.error e, s) => (.error e, s)
  | .choice ns, s => s.choose ns

def TypeSpec.resolve : TypeSpec → Source → Drawn (Option Bytes)
  | .absent, s => (.ok none, s)
  | .single name, s => (.ok (some name), s)
  | .choice names, s => s.choose names

namespace Filler

def writeProvider (providers : List String) (s : Source) (out : Bytes) : Appended :=
  match s.choose providers with
  | (.error e, s) => (.error e, out, s)
  | (.ok provider, s) =>
    (.ok (), out ++ Bytes.ofText "@" ++ Bytes.ofText (provider.getD Provider.fallback), s)

/-- The local part is in the buffer by the time that the provider is drawn. -/
def generateEmail (providers : List String) (length : Option Nat) (s : Source) (out : Bytes) :
    Appended :=
  match s.writeText (length.getD Value.localLength) Charset.lower out with
  | (.error e, out, s) => (.error e, out, s)
  | (.ok (), out, s) => writeProvider providers s out

def generateKeyword (c : Config) (length : Option Nat) (n : Nat) (keyword : Keyword) (s : Source)
    (out : Bytes) : Appended :=
  match keyword with
  | .lower => s.writeText n Charset.lower out
  | .upper => s.writeText n Charset.upper out
  | .letters => s.writeText n Charset.letters out
  | .digit => s.writeText n Charset.digits out
  | .control => s.writeText n Charset.control out
  | .space => (.ok (), out ++ List.replicate n 0x20, s)
  | .hex => s.writeBytes n Hex.encode out
  | .bytes => s.writeBytes n id out
  | .uuid => s.writeBytes 16 Uuid.render out
  | .ipv4 => s.writeBytes 4 Address.render4 out
  | .ipv6 => s.writeBytes 16 Address.render6 out
  | .email => generateEmail c.providers length s out

/-- Adds the content for a declared length. -/
def generate (c : Config) (length : Option Nat) (filler : Filler) (s : Source) (out : Bytes) :
    Appended :=
  let n := length.getD c.defaultLength
  match filler with
  | .standard => s.writeText n Charset.all out
  | .charset chars => s.writeText n chars out
  | .custom generator => (.ok (), out ++ generator n, s)
  | .builtin keyword => generateKeyword c length n keyword s out

end Filler

namespace Config

/-- Content that is not encoded goes straight into the buffer. Any other is put together in a buffer
of its own, and is encoded once it is complete. -/
def writeContent (c : Config) (length : Option Nat) (filler : Filler) (s : Source) (out : Bytes) :
    Appended :=
  if c.output = .plain then filler.generate c length s out
  else match filler.generate c length s [] with
    | (.ok (), generated, s) => (.ok (), c.output.append generated out, s)
    | (.error e, _, s) => (.error e, out, s)

def writeTyped (c : Config) (length : Option Nat) (type : TypeSpec) (s : Source) (out : Bytes) :
    Appended :=
  match type.resolve s with
  | (.error e, s) => (.error e, out, s)
  | (.ok entry, s) => c.writeContent length (c.filler entry) s out

/-- The length is drawn first, then the type, then the content. A malformed tag is written as it
is. -/
def substitute (c : Config) (tag : Bytes) (s : Source) (out : Bytes) : Appended :=
  match c.tagBody tag with
  | .malformed => (.ok (), out ++ tag, s)
  | .bare => c.writeContent none .standard s out
  | .fields length type =>
    match length.resolve s with
    | (.error e, s) => (.error e, out, s)
    | (.ok n, s) => c.writeTyped n type s out

def writeSegment (c : Config) : Segment → Source → Bytes → Appended
  | .literal b, s, out => (.ok (), out ++ b, s)
  | .tag b, s, out => c.substitute b s out

def writeSegments (c : Config) : List Segment → Source → Bytes → Appended
  | [], s, out => (.ok (), out, s)
  | seg :: segs, s, out =>
    match c.writeSegment seg s out with
    | (.ok (), out, s) => c.writeSegments segs s out
    | (.error e, out, s) => (.error e, out, s)

/-- What the buffer of a failed pass holds is dropped. -/
def randomize (c : Config) (payload : Bytes) (s : Source) : Drawn Revised :=
  if opensTag c.accepted payload then
    match c.writeSegments (segments c.accepted payload) s [] with
    | (.ok (), out, s) => (.ok (.rebuilt out), s)
    | (.error e, _, s) => (.error e, s)
  else (.ok (.untouched payload), s)

/-- A pass over text gives text: generated bytes that are not UTF-8 become replacement
characters. -/
def randomizeText (c : Config) (payload : String) (s : Source) : Drawn String :=
  match c.randomize (Bytes.ofText payload) s with
  | (.ok r, s) => (.ok (String.ofList (Utf8.decodeLossy r.bytes)), s)
  | (.error e, s) => (.error e, s)

end Config

end TagFill
