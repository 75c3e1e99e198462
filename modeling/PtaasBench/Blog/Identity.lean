import PtaasBench.Lib.Base64
import PtaasBench.Lib.Splitting
import PtaasBench.Py.JsonText
import PtaasBench.Py.Utf8

/-!
# PtaasBench.Blog.Identity — share-preview links (`sign_preview`, `open_preview`)
-/

namespace PtaasBench.Blog.Identity

open Lib
open Lib.Base64 hiding Text
open Py

abbrev Text := List Char

/-! ## `base64` with the alphabet for URLs -/

def ordinary (c : Char) : Char := if c = '-' then '+' else if c = '_' then '/' else c

inductive Raised where
  /-- a string that is not ASCII -/
  | valueError
  | binasciiError
  deriving DecidableEq

inductive Encoding where
  | utf32 | utf16 | utf8sig | utf16be | utf32be | utf16le | utf32le | utf8
  deriving DecidableEq

/-- What is not written here: the key, SHA-256 as a MAC, and the decoders of wide characters. -/
class Runtime where
  previewSigningKey : Text
  hmac : Bytes → Bytes → Bytes
  decodeWide : Encoding → Bytes → Option Text

variable [Runtime]

/-- A value as it is returned: `null` is `None`. -/
def returned : Json → Option Json
  | .null => none
  | value => some value

/-- The token `v1.body.mac`. -/
def token (body mac : Text) : Text := ['v', '1', '.'] ++ body ++ '.' :: mac

end PtaasBench.Blog.Identity
