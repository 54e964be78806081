import TagFill.Bytes

/-! # Character classes -/

namespace TagFill.Charset

def lower : Bytes := Bytes.span 'a' 26

def upper : Bytes := Bytes.span 'A' 26

def letters : Bytes := lower ++ upper

def digits : Bytes := Bytes.span '0' 10

/-- None of these is part of a delimiter's raw spelling. -/
def symbols : Bytes := Bytes.ofText "!#$%&()*+-./:<=>?@[]^_|~"

/-- What a tag without a known type is filled from. -/
def all : Bytes := letters ++ digits ++ symbols

/-- The control bytes up to 15. -/
def control : Bytes := (List.range 16).map UInt8.ofNat

end TagFill.Charset
