import Flingd.Base.Decimal
import Flingd.Base.Json

/-! `PlatformPal.cpp`: the frames between the daemon and a platform client. -/
namespace Flingd.Platform

/-- The conversion to a 32-bit `int`. -/
def int (n : Int) : Int := n.bmod (2 ^ 32)

def npos : Nat := 2 ^ 64 - 1

namespace StringUtils

def findFirstSymbol (symbol : UInt8) (text : Bytes) : Int :=
  int ((text.findIdx? (· = symbol)).getD npos : Nat)

def shiftStringLeft (text : Bytes) (length : Int) : Bytes := text.drop length.toNat

def headSubString (text : Bytes) (length : Int) : Bytes := text.take length.toNat

def subString (text : Bytes) (start length : Int) : Bytes :=
  (text.drop start.toNat).take length.toNat

end StringUtils

def isSpace (c : UInt8) : Bool := c = 32 ∨ 9 ≤ c ∧ c ≤ 13

/-- `atoi` is `strtol`, which stays in its range, converted to `int`. -/
def atoi (s : Bytes) : Int :=
  let (negative, digits) := readSign (s.dropWhile isSpace)
  let value : Int := digitsValue (digits.takeWhile isDigit)
  int (if negative then max (-value) (-2 ^ 63) else min value (2 ^ 63 - 1))

theorem int_of_lt {n : Int} (h : 0 ≤ n) (hlt : n < 2 ^ 31) : int n = n := by
  unfold int
  rw [Int.bmod_eq_of_le] <;> omega

theorem atoi_decimal {n : Nat} (h : n < 2 ^ 31) : atoi (decimal n) = n := by
  have hdigit : ∀ c ∈ decimal n, isDigit c = true ∧ isSpace c = false := by
    intro c hc
    obtain ⟨h1, h2⟩ := mem_decimal hc
    simp only [isDigit, isSpace, UInt8.le_iff_toNat_le, UInt8.reduceToNat, ← UInt8.toNat_inj,
      decide_eq_true_eq, decide_eq_false_iff_not]
    omega
  have hspaces : (decimal n).dropWhile isSpace = decimal n := by
    cases hd : decimal n with
    | nil => rfl
    | cons c s =>
      have hc := (hdigit c (by rw [hd]; exact List.mem_cons_self)).2
      rw [List.dropWhile_cons_of_neg (by rw [hc]; exact Bool.false_ne_true)]
  have hdigits : (decimal n).takeWhile isDigit = decimal n :=
    List.takeWhile_eq_self_iff.mpr fun c hc => (hdigit c hc).1
  unfold atoi
  simp only [hspaces, readSign_decimal, hdigits, digitsValue_decimal, Bool.false_eq_true, if_false]
  rw [min_eq_left (by omega)]
  exact int_of_lt (by omega) (by omega)

/-- A session with a client; `processed` are the messages that `processMessage` is called on,
and `sent` is what goes to its socket. -/
structure TcpSessionWrapper where
  buffer_ : Bytes
  processed : List Bytes
  sent : List Bytes

namespace TcpSessionWrapper

def start : TcpSessionWrapper := ⟨[], [], []⟩

/-- How much is to be erased from the message buffer, and a single available message. -/
def parseMessage (message outData : Bytes) : Int × Bytes :=
  let index := StringUtils.findFirstSymbol 58 message
  if 0 ≤ index then
    let lenStr := cStr (StringUtils.headSubString message index)
    let length := atoi lenStr
    if length ≤ 0 then (int message.length, [])
    else if length.toNat ≤ message.length - lenStr.length - 1 then
      (int (index + 1 + length), StringUtils.subString message (index + 1) length)
    else (0, [])
  else (0, outData)

theorem parseMessage_nil (outData : Bytes) : parseMessage [] outData = (0, outData) := rfl

/-- What is erased makes the buffer shorter. -/
theorem shiftStringLeft_lt {message outData : Bytes} (h : 0 < (parseMessage message outData).1) :
    (StringUtils.shiftStringLeft message (parseMessage message outData).1).length <
      message.length := by
  have hne : message ≠ [] := by
    rintro rfl
    rw [parseMessage_nil] at h
    exact lt_irrefl 0 h
  have hlen := List.length_pos_iff.mpr hne
  rw [StringUtils.shiftStringLeft, List.length_drop]
  generalize (parseMessage message outData).1 = erase at h
  omega

/-- The loop of `onMessage`, with what was parsed last in `data`. -/
def drain (w : TcpSessionWrapper) (data : Bytes) : TcpSessionWrapper :=
  if _ : 0 < (parseMessage w.buffer_ data).1 then
    let buffer := StringUtils.shiftStringLeft w.buffer_ (parseMessage w.buffer_ data).1
    let data := (parseMessage w.buffer_ data).2
    if data ≠ [] then
      drain { w with buffer_ := buffer, processed := w.processed ++ [data] } data
    else { w with buffer_ := buffer }
  else w
termination_by w.buffer_.length
decreasing_by exact shiftStringLeft_lt (by assumption)

def onMessage (w : TcpSessionWrapper) (message : Bytes) : TcpSessionWrapper :=
  { w with buffer_ := w.buffer_ ++ message }.drain []

def send (w : TcpSessionWrapper) (message : Bytes) : TcpSessionWrapper :=
  { w with sent := w.sent ++ [message] }

end TcpSessionWrapper

def frame (message : Bytes) : Bytes := decimal message.length ++ 58 :: message

structure PlatformPal where
  sessions_ : List TcpSessionWrapper

namespace PlatformPal

def sendMessageToAllSessions (p : PlatformPal) (message : Bytes) : PlatformPal :=
  ⟨p.sessions_.map (·.send (frame message))⟩

/-! `write` stands for the writer of `rapidjson`. -/
variable (write : Json Bytes → Bytes)

def receiverMessage (type url : Bytes) : Json Bytes :=
  .object [(str "type", .string type), (str "app_info", .object [(str "url", .string (cStr url))])]

def onReceiver (p : PlatformPal) (type url : Bytes) : PlatformPal :=
  if 0 < p.sessions_.length then p.sendMessageToAllSessions (write (receiverMessage type url)) else p

def onLaunchWebApp (p : PlatformPal) (url : Bytes) : PlatformPal :=
  p.onReceiver write (str "LAUNCH_RECEIVER") url

def onLaunchNativeApp (p : PlatformPal) (app : Bytes) : PlatformPal :=
  p.onReceiver write (str "LAUNCH_RECEIVER") app

def onStopWebApp (p : PlatformPal) (url : Bytes) : PlatformPal :=
  p.onReceiver write (str "STOP_RECEIVER") url

def onStopNativeApp (p : PlatformPal) (app : Bytes) : PlatformPal :=
  p.onReceiver write (str "STOP_RECEIVER") app

end PlatformPal

end Flingd.Platform
