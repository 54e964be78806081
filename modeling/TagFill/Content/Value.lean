import TagFill.Content.Address
import TagFill.Content.Charset
import TagFill.Content.Provider
import TagFill.Content.Uuid
import TagFill.Random.Draw

/-! # Random values

A value is drawn as bytes in one request and then written as text. A mail address takes more: its
local part, and its provider where there are several.
-/

namespace TagFill.Value

/-- Two hex digits for each of `n` bytes. -/
def hex (n : Nat) : Draw Bytes := Hex.encode <$> Draw.bytes n

def uuid : Draw Bytes := Uuid.render <$> Draw.bytes 16

def ipv4 : Draw Bytes := Address.render4 <$> Draw.bytes 4

def ipv6 : Draw Bytes := Address.render6 <$> Draw.bytes 16

/-- The length of a local part that is not declared. -/
def localLength : Nat := 8

def email (providers : List String) (length : Option Nat) : Draw Bytes := do
  let localPart ← Draw.text (length.getD localLength) Charset.lower
  let provider ← Draw.choose providers
  return localPart ++ Bytes.ofText "@" ++ Bytes.ofText (provider.getD Provider.fallback)

end TagFill.Value
