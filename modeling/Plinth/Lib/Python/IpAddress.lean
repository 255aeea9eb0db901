/-!
# Addresses

What `ipaddress.ip_address` takes for an address.
-/

namespace Python.IpAddress

def isOctet (s : List Char) : Bool :=
  s ≠ [] && s.all Char.isDigit && s.length ≤ 3 && (s = ['0'] || s.head? ≠ some '0') &&
    Nat.ofDigitChars 10 s 0 ≤ 255

def isIpv4 (s : List Char) : Bool :=
  (s.splitOn '.').length = 4 && (s.splitOn '.').all isOctet

def isHexDigit (c : Char) : Bool :=
  c.isDigit || ('a' ≤ c && c ≤ 'f') || ('A' ≤ c && c ≤ 'F')

def isHextet (s : List Char) : Bool :=
  s ≠ [] && s.all isHexDigit && s.length ≤ 4

def withoutIpv4 (parts : List (List Char)) : Option (List (List Char)) :=
  match parts.getLast? with
  | some last =>
    if '.' ∈ last then
      if isIpv4 last then some (parts.dropLast ++ [['0'], ['0']]) else none
    else some parts
  | none => some parts

/-- The parts before and after `::`, of which those outside may only be empty next to it. -/
def aroundSkip (parts : List (List Char)) (skip : Nat) : Bool :=
  let before := parts.take skip
  let after := parts.drop (skip + 1)
  let high := if before.head? = some [] then before.drop 1 else before
  let low := if after.getLast? = some [] then after.dropLast else after
  (before.head? ≠ some [] || high = []) && (after.getLast? ≠ some [] || low = []) &&
    high.length + low.length < 8 && high.all isHextet && low.all isHextet

def areHextets (parts : List (List Char)) : Bool :=
  let inner := (parts.drop 1).dropLast
  if inner.count [] = 0 then parts.length = 8 && parts.all isHextet
  else inner.count [] = 1 && aroundSkip parts (inner.idxOf [] + 1)

def isIpv6Unscoped (s : List Char) : Bool :=
  let parts := s.splitOn ':'
  3 ≤ parts.length &&
    match withoutIpv4 parts with
    | some parts => parts.length ≤ 9 && areHextets parts
    | none => false

def isIpv6 (s : List Char) : Bool :=
  '/' ∉ s && isIpv6Unscoped (s.takeWhile (· ≠ '%')) &&
    match s.dropWhile (· ≠ '%') with
    | [] => true
    | _ :: scope => scope ≠ [] && '%' ∉ scope

/-- `ipaddress.ip_address(s)` does not raise. -/
def isIpAddress (s : List Char) : Bool :=
  isIpv4 s || isIpv6 s

end Python.IpAddress
