import LineScript.Text.Quoted

/-! Texts from bytes. Bytes that are no UTF-8 are refused with the span at fault. -/
namespace LineScript.Text

inductive Utf8Reason where
  | invalidStart
  | invalidContinuation
  | endOfData
  deriving DecidableEq, Repr

def Utf8Reason.text : Utf8Reason → String
  | .invalidStart => "invalid start byte"
  | .invalidContinuation => "invalid continuation byte"
  | .endOfData => "unexpected end of data"

structure Utf8Fault where
  start : Nat
  count : Nat
  byte : Nat
  reason : Utf8Reason
  deriving DecidableEq, Repr

def Utf8Fault.message (f : Utf8Fault) : String :=
  "'utf-8' codec can't decode " ++
    (if f.count = 1 then
      "byte 0x" ++ String.ofList (hexDigits 2 f.byte) ++ " in position " ++ toString f.start
    else "bytes in position " ++ toString f.start ++ "-" ++ toString (f.start + f.count - 1)) ++
    ": " ++ f.reason.text

def isContinuation (byte : Nat) : Bool := 0x80 ≤ byte && byte < 0xc0

def isSecond (lead byte : Nat) : Bool :=
  isContinuation byte &&
    !(lead = 0xe0 && byte < 0xa0) && !(lead = 0xed && 0xa0 ≤ byte) &&
    !(lead = 0xf0 && byte < 0x90) && !(lead = 0xf4 && 0x90 ≤ byte)

def decodeUtf8At (offset : Nat) : List Nat → Except Utf8Fault (List Char)
  | [] => .ok []
  | a :: bytes =>
    let fault (count : Nat) (reason : Utf8Reason) : Except Utf8Fault (List Char) :=
      .error ⟨offset, count, a, reason⟩
    if a < 0x80 then return Char.ofNat a :: (← decodeUtf8At (offset + 1) bytes)
    else if a < 0xc2 || 0xf5 ≤ a then fault 1 .invalidStart
    else
      match bytes with
      | [] => fault 1 .endOfData
      | b :: bytes =>
        if !isSecond a b then fault 1 .invalidContinuation
        else if a < 0xe0 then
          return Char.ofNat (a % 32 * 64 + b % 64) :: (← decodeUtf8At (offset + 2) bytes)
        else
          match bytes with
          | [] => fault 2 .endOfData
          | c :: bytes =>
            if !isContinuation c then fault 2 .invalidContinuation
            else if a < 0xf0 then
              return Char.ofNat (a % 16 * 4096 + b % 64 * 64 + c % 64) ::
                (← decodeUtf8At (offset + 3) bytes)
            else
              match bytes with
              | [] => fault 3 .endOfData
              | d :: bytes =>
                if !isContinuation d then fault 3 .invalidContinuation
                else
                  return Char.ofNat (a % 8 * 262144 + b % 64 * 4096 + c % 64 * 64 + d % 64) ::
                    (← decodeUtf8At (offset + 4) bytes)

def decodeUtf8 (bytes : List UInt8) : Except Utf8Fault (List Char) :=
  decodeUtf8At 0 (bytes.map UInt8.toNat)

def unifyNewlines : List Char → List Char
  | [] => []
  | '\r' :: '\n' :: cs => '\n' :: unifyNewlines cs
  | '\r' :: cs => '\n' :: unifyNewlines cs
  | c :: cs => c :: unifyNewlines cs

end LineScript.Text
