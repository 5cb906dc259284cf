import Mathlib.Data.List.AList
import Mathlib.Data.List.DropRight
import MqttServer.Codec.Msg

/-!
# `Http.Request` — parsing a publish request

`str_tools`, `HTTPRequest` and `HttpConnection::parse_headers`. The parser works on a C string, cuts it into
lines with `strtok_r`, and takes the parameters from the request line and, for a POST, from every later line
that does not look like a header. An index past the end of a `std::vector` is a fault.
-/

namespace MqttServer

/-- The bytes of a text. -/
def text (s : String) : ByteStr := s.toList.map fun c => UInt8.ofNat c.toNat

/-! ## `str_tools` -/

namespace StrTools

/-- The loop of `split`, at most `fuel` rounds: the pieces cut off, and the rest of the string. -/
def splitLoop (separator : ByteStr) (max : Int) : Nat → Int → ByteStr → List ByteStr × ByteStr
  | 0, _, str => ([], str)
  | fuel + 1, i, str =>
      if str.any (· ∈ separator) then
        let found := str.findIdx (· ∈ separator)
        let piece := if found > 0 then [str.take found] else []
        let str := str.drop (found + 1)
        if max > -1 ∧ i + 1 = max then (piece, str)
        else
          let r := splitLoop separator max fuel (i + 1) str
          (piece ++ r.1, r.2)
      else ([], str)

/-- `split(str, separator, max, results)`: any byte of `separator` separates, and empty pieces are left out.
    Every round takes a byte off, so the length is rounds enough. -/
def split (str separator : ByteStr) (max : Int) : List ByteStr :=
  let r := splitLoop separator max str.length 0 str
  if r.2.length > 0 then r.1 ++ [r.2] else r.1

/-- `isspace`, in the C locale. -/
def isspace (c : UInt8) : Bool := c = 0x20 ∨ (0x09 ≤ c ∧ c ≤ 0x0D)

/-- `trim(s)`. -/
def trim (s : ByteStr) : ByteStr := (s.dropWhile isspace).rdropWhile isspace

/-- `remove_space(str)`; without a byte that is not a space the iterators are out of range. -/
def removeSpace (str : ByteStr) : Option ByteStr :=
  if str.all (· = 0x20) then none else some ((str.dropWhile (· = 0x20)).rdropWhile (· = 0x20))

/-- The digits at the front of a string, as `strtol` reads them. -/
def digits : Nat → ByteStr → Nat
  | n, [] => n
  | n, c :: s => if 0x30 ≤ c ∧ c ≤ 0x39 then digits (n * 10 + (c.toNat - 0x30)) s else n

/-- The `long` that `strtol` finds for `atoi(s)`. It is cut down to an `int` there, and to eight bits by all its callers. -/
def atoi (s : ByteStr) : Int :=
  let v : Int := match s.dropWhile isspace with
    | 0x2D :: s => -(digits 0 s)
    | 0x2B :: s => digits 0 s
    | s => digits 0 s
  max (-2 ^ 63) (min v (2 ^ 63 - 1))

end StrTools

open StrTools

/-! ## `strtok_r` -/

/-- The newline character. -/
def newline : UInt8 := 0x0A

/-- `strtok_r(…, "\n", &context)`: the next token, and the string behind its newline. -/
def strtokR (s : ByteStr) : Option (ByteStr × ByteStr) :=
  match s.dropWhile (· = newline) with
  | [] => none
  | s => some (s.takeWhile (· ≠ newline), (s.dropWhile (· ≠ newline)).drop 1)

/-- What `n` calls of `strtok_r` leave in memory: the newline behind each token is overwritten by a NUL, the
    newlines before a token stay. -/
def strtokMark : (n : Nat) → (inToken : Bool) → ByteStr → ByteStr
  | 0, _, s => s
  | _ + 1, _, [] => []
  | n + 1, inToken, c :: s =>
      if c = newline then
        if inToken then 0 :: strtokMark n false s else c :: strtokMark (n + 1) false s
      else c :: strtokMark (n + 1) true s

/-! ## Parsing -/

/-- `HTTPRequest`, without the maps nothing reads. -/
structure HTTPRequest where
  method : ByteStr := []
  path : ByteStr := []
  query : AList (fun _ : ByteStr => ByteStr) := ∅

namespace HTTPRequest

/-- `query_param(name, value)`. -/
def queryParam (req : HTTPRequest) (name : ByteStr) : Option ByteStr := req.query.lookup name

end HTTPRequest

/-- Undefined behaviour of the HTTP server: an index or iterator out of range, and the terminator behind a
    full receive buffer. -/
inductive HttpFault where
  | outOfRange | overrun
deriving DecidableEq, Repr

/-- The parameters of a request line: only pairs with exactly one name and one value. -/
def getParams (query : AList fun _ : ByteStr => ByteStr) : List ByteStr → AList fun _ : ByteStr => ByteStr
  | [] => query
  | q :: qs =>
      match split q (text "=") (-1) with
      | [name, value] => getParams (query.insert name value) qs
      | _ => getParams query qs

/-- The parameters of a line of a POST body: name and value are taken without a check. -/
def postParams (query : AList fun _ : ByteStr => ByteStr) :
    List ByteStr → Except HttpFault (AList fun _ : ByteStr => ByteStr)
  | [] => .ok query
  | r :: rs =>
      match split r (text "=") 2 with
      | name :: value :: _ => postParams (query.insert name value) rs
      | _ => .error .outOfRange

/-- The first line that is not blank; `none` is the `-1` of a line without three words. -/
def requestLine (req : HTTPRequest) (line : ByteStr) : Except HttpFault (Option HTTPRequest) :=
  match split line (text " ") 3 with
  | [method, path, _] =>
      if 0x3F ∈ path then
        let pos := path.findIdx (· = 0x3F)
        .ok (some { method, path := path.take pos
                    query := getParams req.query (split (path.drop (pos + 1)) (text "&") (-1)) })
      else if method = text "POST" then
        match removeSpace path with
        | none => .error .outOfRange
        | some path => .ok (some { req with method, path })
      else .ok (some { req with method, path })
  | _ => .ok none

/-- Any later line: a header, or parameters of a POST. -/
def headerLine (req : HTTPRequest) (line : ByteStr) : Except HttpFault HTTPRequest :=
  if (split line (text ": ") 2).length = 2 then .ok req
  else if req.method = text "POST" then do
    let query ← postParams req.query (split line (text "&") 3)
    pure { req with query }
  else .ok req

/-- Result of `parse_headers`: its return value, the request, and how often `strtok_r` found a token. -/
structure Parsed where
  res : Int
  req : HTTPRequest
  tokens : Nat

/-- The `for` loop of `parse_headers`; `seen` says that the request line has been read (`i > 0`). -/
def parseLoop : (fuel : Nat) → (seen : Bool) → Parsed → ByteStr → Except HttpFault Parsed
  | 0, _, st, _ => .ok st
  | fuel + 1, seen, st, context =>
      match strtokR context with
      | none => .ok st
      | some (token, context) =>
          let st := { st with tokens := st.tokens + 1 }
          let line := trim token
          if line = [] then parseLoop fuel seen st context
          else if seen then
            match headerLine st.req line with
            | .error e => .error e
            | .ok req => parseLoop fuel seen { st with req } context
          else
            match requestLine st.req line with
            | .error e => .error e
            | .ok none => .ok { st with res := -1 }
            | .ok (some req) => parseLoop fuel true { st with req } context

/-- `parse_headers(headers, req, res)` on a C string. Every token has a byte, so the length is rounds
    enough. -/
def parseHeaders (headers : ByteStr) : Except HttpFault Parsed :=
  parseLoop headers.length false { res := 0, req := {}, tokens := 0 } headers

end MqttServer
