/-
The redactor of the control plane (`internal/secret/redactor.go`): every
form in which a sensitive value may show up in a text is replaced by
asterisks.

The forms are collected in a map, so the order in which two forms of the
same length are replaced is not determined: `Ordering` says which orders
`Mask` may use, and `Redactor.mask` takes one.

# What is left open

`strings.ToLower` on text that is not plain ASCII is a parameter.
-/
import Mathlib.Data.List.Dedup
import Yunling.Lib.Replace
import Yunling.Lib.Utf8

namespace Yunling.Secret

open Utf8 Replace

/-- `mask`, six asterisks. -/
def mask : Bytes := List.replicate 6 0x2A

-- ======== encodings

/-- The alphabet of a base64 encoding. -/
def base64Digit (url : Bool) (n : Nat) : UInt8 :=
  if n < 26 then .ofNat (0x41 + n)
  else if n < 52 then .ofNat (0x61 + (n - 26))
  else if n < 62 then .ofNat (0x30 + (n - 52))
  else if n = 62 then (if url then 0x2D else 0x2B)
  else (if url then 0x5F else 0x2F)

/-- `base64.Encoding.EncodeToString`, with the standard or the URL
alphabet, padded or raw. -/
def base64 (url padded : Bool) : Bytes → Bytes
  | a :: b :: c :: rest =>
    let n := a.toNat * 65536 + b.toNat * 256 + c.toNat
    base64Digit url (n / 262144) :: base64Digit url (n / 4096 % 64)
      :: base64Digit url (n / 64 % 64) :: base64Digit url (n % 64) :: base64 url padded rest
  | [a, b] =>
    let n := a.toNat * 65536 + b.toNat * 256
    [base64Digit url (n / 262144), base64Digit url (n / 4096 % 64),
      base64Digit url (n / 64 % 64)] ++ if padded then [0x3D] else []
  | [a] =>
    let n := a.toNat * 65536
    [base64Digit url (n / 262144), base64Digit url (n / 4096 % 64)]
      ++ if padded then [0x3D, 0x3D] else []
  | [] => []

/-- `url.shouldEscape`, for a path segment or a query component. -/
def shouldEscape (path : Bool) (c : UInt8) : Bool :=
  let n := c.toNat
  !((0x61 ≤ n && n ≤ 0x7A) || (0x41 ≤ n && n ≤ 0x5A)
    || (0x30 ≤ n && n ≤ 0x39)
    -- - _ . ~
    || [0x2D, 0x5F, 0x2E, 0x7E].contains n
    -- $ & + : = @
    || (path && [0x24, 0x26, 0x2B, 0x3A, 0x3D, 0x40].contains n))

/-- An upper case hexadecimal digit. -/
def hexDigit (n : Nat) : UInt8 :=
  if n < 10 then .ofNat (0x30 + n) else .ofNat (0x41 + (n - 10))

/-- `url.escape`. -/
def escape (path : Bool) (value : Bytes) : Bytes :=
  value.flatMap fun c =>
    if c = 0x20 ∧ path = false then [0x2B]
    else if shouldEscape path c then
      [0x25, hexDigit (c.toNat / 16), hexDigit (c.toNat % 16)]
    else [c]

/-- `url.QueryEscape`. -/
def queryEscape (value : Bytes) : Bytes := escape false value

/-- `url.PathEscape`. -/
def pathEscape (value : Bytes) : Bytes := escape true value

/-- `strings.ToLower`; `wide` is what it makes of text that is not
ASCII. -/
def toLower (wide : Bytes → Bytes) (s : Bytes) : Bytes :=
  if s.all (· < 0x80) then
    s.map fun c => if 0x41 ≤ c ∧ c ≤ 0x5A then c + 0x20 else c
  else wide s

-- ======== masking

/-- The forms of the values. -/
def variants (values : List Bytes) : List Bytes :=
  (values.filter (· ≠ [])).flatMap fun value =>
    [value, base64 false true value, base64 false false value,
      base64 true true value, base64 true false value, queryEscape value, pathEscape value]

/-- An order `Mask` may use: every form once, longer ones first. -/
structure Ordering (values ordered : List Bytes) : Prop where
  once : ordered.Nodup
  forms : ∀ v ∈ ordered, v ∈ variants values ∧ v ≠ [] ∧ v ≠ mask
  every : ∀ v ∈ variants values, v ≠ [] → v ≠ mask → v ∈ ordered
  longest : ordered.Pairwise fun v w => w.length ≤ v.length

instance (values ordered : List Bytes) : Decidable (Ordering values ordered) :=
  decidable_of_iff (ordered.Nodup ∧ (∀ v ∈ ordered, v ∈ variants values ∧ v ≠ [] ∧ v ≠ mask)
      ∧ (∀ v ∈ variants values, v ≠ [] → v ≠ mask → v ∈ ordered)
      ∧ ordered.Pairwise fun v w => w.length ≤ v.length)
    ⟨fun ⟨once, forms, every, longest⟩ => ⟨once, forms, every, longest⟩,
      fun h => ⟨h.once, h.forms, h.every, h.longest⟩⟩

/-- One round of the loop of `Mask`. -/
def maskVariant (wide : Bytes → Bytes) (text variant : Bytes) : Bytes :=
  let result := replaceAll variant mask 0 text
  if 0x25 ∈ variant ∧ toLower wide variant ≠ variant then
    replaceAll (toLower wide variant) mask 0 result
  else result

/-- `Redactor.Mask`, in the order it comes to use. -/
def Redactor.mask (wide : Bytes → Bytes) (ordered : List Bytes) (text : Bytes) : Bytes :=
  ordered.foldl (maskVariant wide) text

end Yunling.Secret
