/-! # Mail providers -/

namespace TagFill.Provider

/-- The domains that addresses are written for unless others are configured. -/
def bundled : List String :=
  ["gmail.com", "outlook.com", "hotmail.com", "yahoo.com", "icloud.com", "protonmail.com",
    "proton.me", "aol.com", "gmx.com", "gmx.net", "mail.com", "zoho.com", "yandex.com",
    "fastmail.com", "tutanota.com", "web.de"]

/-- The domain of an empty list. -/
def fallback : String := "gmail.com"

end TagFill.Provider
