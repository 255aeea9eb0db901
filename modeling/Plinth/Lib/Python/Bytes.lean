import Mathlib.Data.List.Defs

/-!
# Bytes and text

UTF-8, and the encodings in which `json.loads` accepts bytes. Half of a surrogate pair, which the
error handler `surrogatepass` lets through, is read as the replacement character.
-/

namespace Python

abbrev Bytes := List UInt8

def encodeUtf8 (s : String) : Bytes :=
  s.toByteArray.data.toList

def decodeUtf8 (b : Bytes) : Option String :=
  String.fromUTF8? ⟨b.toArray⟩

@[simp] theorem decodeUtf8_encodeUtf8 (s : String) : decodeUtf8 (encodeUtf8 s) = some s := by
  have same : (⟨s.toByteArray.data.toList.toArray⟩ : ByteArray) = s.toByteArray := by simp
  unfold decodeUtf8 encodeUtf8 String.fromUTF8?
  rw [same, dif_pos s.isValidUTF8]
  rfl

theorem encodeUtf8_inj {s s' : String} (h : encodeUtf8 s = encodeUtf8 s') : s = s' := by
  have decoded := congrArg decodeUtf8 h
  rw [decodeUtf8_encodeUtf8, decodeUtf8_encodeUtf8] at decoded
  exact Option.some.inj decoded

/-! ## The encodings of a JSON document -/

inductive Encoding
  | utf8
  | utf8Sig
  | utf16 (bigEndian : Bool)
  | utf16Bom
  | utf32 (bigEndian : Bool)
  | utf32Bom
  deriving DecidableEq, Repr

/-- `json.detect_encoding`: by the byte order mark, or by the position of the zeros. -/
def detectEncoding (b : Bytes) : Encoding :=
  if [0x00, 0x00, 0xfe, 0xff].isPrefixOf b ∨ [0xff, 0xfe, 0x00, 0x00].isPrefixOf b then .utf32Bom
  else if [0xfe, 0xff].isPrefixOf b ∨ [0xff, 0xfe].isPrefixOf b then .utf16Bom
  else if [0xef, 0xbb, 0xbf].isPrefixOf b then .utf8Sig
  else match b with
    | b₀ :: b₁ :: b₂ :: b₃ :: _ =>
      if b₀ = 0 then (if b₁ ≠ 0 then .utf16 true else .utf32 true)
      else if b₁ = 0 then (if b₂ ≠ 0 ∨ b₃ ≠ 0 then .utf16 false else .utf32 false)
      else .utf8
    | [b₀, b₁] =>
      if b₀ = 0 then .utf16 true
      else if b₁ = 0 then .utf16 false
      else .utf8
    | _ => .utf8

def replaceSurrogates : Bytes → Bytes
  | a :: b :: c :: rest =>
    if a = 0xed ∧ (0xa0 ≤ b ∧ b ≤ 0xbf) ∧ (0x80 ≤ c ∧ c ≤ 0xbf) then
      0xef :: 0xbf :: 0xbd :: replaceSurrogates rest
    else a :: replaceSurrogates (b :: c :: rest)
  | rest => rest

def isSurrogate (n : Nat) : Bool :=
  0xd800 ≤ n && n < 0xe000

def charOf (n : Nat) : Char :=
  if isSurrogate n then '\ufffd' else Char.ofNat n

def units (bigEndian : Bool) : Bytes → Option (List Nat)
  | [] => some []
  | [_] => none
  | a :: b :: rest => do
      let unit := if bigEndian then a.toNat * 256 + b.toNat else b.toNat * 256 + a.toNat
      return unit :: (← units bigEndian rest)

def decodeUnits : List Nat → List Char
  | high :: low :: rest =>
    if 0xd800 ≤ high ∧ high < 0xdc00 ∧ 0xdc00 ≤ low ∧ low < 0xe000 then
      Char.ofNat (0x10000 + (high - 0xd800) * 0x400 + (low - 0xdc00)) :: decodeUnits rest
    else charOf high :: decodeUnits (low :: rest)
  | [unit] => [charOf unit]
  | [] => []

def decodeUtf16 (bigEndian : Bool) (b : Bytes) : Option String :=
  (units bigEndian b).map fun units => String.ofList (decodeUnits units)

def decodeUtf32 (bigEndian : Bool) (b : Bytes) : Option String := do
  let halves ← units bigEndian b
  String.ofList <$> pairs halves
where
  pairs : List Nat → Option (List Char)
    | [] => some []
    | [_] => none
    | first :: second :: rest => do
        let n := if bigEndian then first * 65536 + second else second * 65536 + first
        if n < 0x110000 then return charOf n :: (← pairs rest) else none

/-! ## Bytes that need not be UTF-8 -/

def firstByte (b : UInt8) : Option (Nat × List (UInt8 × UInt8)) :=
  if b < 0x80 then some (b.toNat, [])
  else if 0xc2 ≤ b ∧ b ≤ 0xdf then some (b.toNat - 0xc0, [(0x80, 0xbf)])
  else if b = 0xe0 then some (0, [(0xa0, 0xbf), (0x80, 0xbf)])
  else if b = 0xed then some (0xd, [(0x80, 0x9f), (0x80, 0xbf)])
  else if 0xe1 ≤ b ∧ b ≤ 0xef then some (b.toNat - 0xe0, [(0x80, 0xbf), (0x80, 0xbf)])
  else if b = 0xf0 then some (0, [(0x90, 0xbf), (0x80, 0xbf), (0x80, 0xbf)])
  else if 0xf1 ≤ b ∧ b ≤ 0xf3 then
    some (b.toNat - 0xf0, [(0x80, 0xbf), (0x80, 0xbf), (0x80, 0xbf)])
  else if b = 0xf4 then some (4, [(0x80, 0x8f), (0x80, 0xbf), (0x80, 0xbf)])
  else none

def beginChar (b : UInt8) : List Char × Option (Nat × List (UInt8 × UInt8)) :=
  match firstByte b with
  | some (code, []) => ([Char.ofNat code], none)
  | some begun => ([], some begun)
  | none => (['\ufffd'], none)

/-- `b.decode('utf-8', 'replace')`, in the middle of a character or not. -/
def decodeReplaceFrom : Option (Nat × List (UInt8 × UInt8)) → Bytes → List Char
  | none, [] => []
  | some _, [] => ['\ufffd']
  | some (code, (low, high) :: ranges), b :: bytes =>
    if low ≤ b ∧ b ≤ high then
      let code := code * 64 + (b.toNat - 0x80)
      if ranges = [] then Char.ofNat code :: decodeReplaceFrom none bytes
      else decodeReplaceFrom (some (code, ranges)) bytes
    else '\ufffd' :: ((beginChar b).1 ++ decodeReplaceFrom (beginChar b).2 bytes)
  | _, b :: bytes => (beginChar b).1 ++ decodeReplaceFrom (beginChar b).2 bytes

def decodeReplace (b : Bytes) : List Char :=
  decodeReplaceFrom none b

/-- The text of the bytes given to `json.loads`. -/
def decodeJson (b : Bytes) : Option String :=
  match detectEncoding b with
  | .utf8 => decodeUtf8 (replaceSurrogates b)
  | .utf8Sig => decodeUtf8 (replaceSurrogates (b.drop 3))
  | .utf16 bigEndian => decodeUtf16 bigEndian b
  | .utf16Bom => decodeUtf16 (b.head? = some 0xfe) (b.drop 2)
  | .utf32 bigEndian => decodeUtf32 bigEndian b
  | .utf32Bom => decodeUtf32 (b.head? = some 0x00) (b.drop 4)

theorem replaceSurrogates_ascii {b : Bytes} (ascii : ∀ byte ∈ b, byte < 0x80) :
    replaceSurrogates b = b := by
  induction b using replaceSurrogates.induct with
  | case1 a b c rest surrogate _ =>
    have small := ascii a List.mem_cons_self
    rw [surrogate.1] at small
    exact absurd small (by decide)
  | case2 a b c rest plain ih =>
    rw [replaceSurrogates, if_neg plain,
      ih fun byte member => ascii byte (List.mem_cons_of_mem _ member)]
  | case3 rest short => rw [replaceSurrogates.eq_2 _ short]

end Python
