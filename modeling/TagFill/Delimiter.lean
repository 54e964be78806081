import TagFill.Bytes

/-! # Delimiters

A tag is opened, divided and closed by delimiters. Each has a raw spelling, which is always
accepted, and one spelling in every dialect that encodes it.
-/

namespace TagFill

inductive Dialect
  | url
  | html
  deriving DecidableEq, Repr

namespace Dialect

def all : List Dialect := [.url, .html]

def name : Dialect → String
  | .url => "url"
  | .html => "html"

def ofName? (name : String) : Option Dialect := all.find? fun d => d.name == name

end Dialect

/-- The dialects accepted besides the raw spellings. -/
structure Dialects where
  url : Bool
  html : Bool
  deriving DecidableEq, Repr

namespace Dialects

def both : Dialects := ⟨true, true⟩

def rawOnly : Dialects := ⟨false, false⟩

def ofList (ds : List Dialect) : Dialects := ⟨ds.contains .url, ds.contains .html⟩

def accepts (s : Dialects) : Dialect → Bool
  | .url => s.url
  | .html => s.html

def toList (s : Dialects) : List Dialect := Dialect.all.filter s.accepts

@[simp] theorem accepts_ofList (ds : List Dialect) (d : Dialect) :
    (ofList ds).accepts d = ds.contains d := by
  cases d <;> rfl

@[simp] theorem mem_toList {s : Dialects} {d : Dialect} : d ∈ s.toList ↔ s.accepts d = true := by
  cases d <;> simp [toList, Dialect.all]

end Dialects

inductive Delimiter
  | tagOpen
  | tagClose
  | separator
  deriving DecidableEq, Repr

namespace Delimiter

def all : List Delimiter := [.tagOpen, .tagClose, .separator]

def raw : Delimiter → Bytes
  | .tagOpen => Bytes.ofText "\x7bRAND"
  | .tagClose => Bytes.ofText "\x7d"
  | .separator => Bytes.ofText ";"

def encoded : Dialect → Delimiter → Bytes
  | .url, .tagOpen => Bytes.ofText "%7BRAND"
  | .url, .tagClose => Bytes.ofText "%7D"
  | .url, .separator => Bytes.ofText "%3B"
  | .html, .tagOpen => Bytes.ofText "&lbrace;RAND"
  | .html, .tagClose => Bytes.ofText "&rbrace;"
  | .html, .separator => Bytes.ofText "&semi;"

/-- Every accepted spelling, the raw one first. -/
def spellings (accepted : Dialects) (d : Delimiter) : List Bytes :=
  d.raw :: accepted.toList.map (encoded · d)

theorem raw_ne_nil (d : Delimiter) : d.raw ≠ [] := by cases d <;> decide

theorem encoded_ne_nil (dialect : Dialect) (d : Delimiter) : encoded dialect d ≠ [] := by
  cases dialect <;> cases d <;> decide

theorem ne_nil_of_mem_spellings {accepted : Dialects} {d : Delimiter} {s : Bytes}
    (h : s ∈ spellings accepted d) : s ≠ [] := by
  simp only [spellings, List.mem_cons, List.mem_map] at h
  rcases h with rfl | ⟨dialect, -, rfl⟩
  · exact raw_ne_nil d
  · exact encoded_ne_nil dialect d

end Delimiter

end TagFill
