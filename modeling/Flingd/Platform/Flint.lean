import Mathlib.Data.Rat.Defs
import Flingd.Base.Json
import Flingd.Base.Outcome

/-! `Flint.java`: the client of the platform on Android. Its strings are in UTF-16. -/
namespace Flingd.Platform
open Outcome

inductive JavaException where
  | stringIndexOutOfBounds
deriving DecidableEq

/-! ### Strings -/

/-- The zeros of the decimal digits that `Character.digit` knows. -/
def digitZeros : List Nat :=
  [0x30, 0x660, 0x6F0, 0x7C0, 0x966, 0x9E6, 0xA66, 0xAE6, 0xB66, 0xBE6, 0xC66, 0xCE6, 0xD66, 0xDE6,
    0xE50, 0xED0, 0xF20, 0x1040, 0x1090, 0x17E0, 0x1810, 0x1946, 0x19D0, 0x1A80, 0x1A90, 0x1B50,
    0x1BB0, 0x1C40, 0x1C50, 0xA620, 0xA8D0, 0xA900, 0xA9D0, 0xA9F0, 0xAA50, 0xABF0, 0xFF10]

def digit (u : UInt16) : Option Nat :=
  (digitZeros.find? fun z => z ≤ u.toNat ∧ u.toNat < z + 10).map (u.toNat - ·)

def javaSign : JavaString → Bool × JavaString
  | 45 :: s => (true, s)
  | 43 :: s => (false, s)
  | s => (false, s)

/-- `Integer.parseInt`; `none` is a `NumberFormatException`. -/
def parseInt (s : JavaString) : Option Int :=
  let (negative, units) := javaSign s
  match units.mapM digit with
  | none => none
  | some digits =>
    let size : Nat := digits.foldl (fun n d => 10 * n + d) 0
    let value : Int := if negative then -(size : Int) else size
    if units ≠ [] ∧ -2 ^ 31 ≤ value ∧ value < 2 ^ 31 then some value else none

theorem parseInt_lt (s : JavaString) : (parseInt s).getD 0 < 2 ^ 31 := by
  simp only [parseInt]
  split
  · decide
  · rename_i digits _
    generalize (if (javaSign s).1 = true then -((digits.foldl (fun n d => 10 * n + d) 0 : Nat) : Int)
      else (digits.foldl (fun n d => 10 * n + d) 0 : Nat)) = value
    by_cases h : (javaSign s).2 ≠ [] ∧ -2 ^ 31 ≤ value ∧ value < 2 ^ 31
    · rw [if_pos h]
      exact h.2.2
    · rw [if_neg h]
      decide

def indexOf (u : UInt16) (s : JavaString) : Int :=
  match s.findIdx? (· = u) with
  | some i => i
  | none => -1

theorem length_pos_of_indexOf {u : UInt16} {s : JavaString} (h : 0 < indexOf u s) :
    0 < s.length := by
  cases s with
  | nil => exact absurd h (show ¬ (0 : Int) < -1 by decide)
  | cons a s => exact Nat.succ_pos _

def substring (s : JavaString) (start stop : Int) : Except JavaException JavaString :=
  if 0 ≤ start ∧ start ≤ stop ∧ stop ≤ s.length then
    .ok ((s.take stop.toNat).drop start.toNat)
  else .error .stringIndexOutOfBounds

def javaString (s : String) : JavaString := s.toList.map fun c => UInt16.ofNat c.toNat

/-- `s.toLowerCase().startsWith(word)` for a word without `i` and `k`, which are the letters that
something beyond ASCII has in its lower case. -/
def lowerStartsWith (s word : JavaString) : Bool :=
  (s.take word.length).map (fun u => if 65 ≤ u ∧ u ≤ 90 then u + 32 else u) = word

/-! ### The client -/

/-- `processed` are the messages that `processMessage` is called on. -/
structure Flint where
  mReaderBuffer : JavaString
  processed : List JavaString
deriving DecidableEq

namespace Flint

def start : Flint := ⟨[], []⟩

/-- One pass of the loop of `parseMessage`; `none` where the loop ends. -/
def pass (f : Flint) : Except JavaException (Option Flint) :=
  let index := indexOf 58 f.mReaderBuffer
  if 0 < index then
    let buffer := f.mReaderBuffer.drop (index.toNat + 1)
    let len := (parseInt (f.mReaderBuffer.take index.toNat)).getD 0
    if 0 < len then do
      let content ← substring buffer 0 len
      .ok (some ⟨buffer.drop len.toNat, f.processed ++ [content]⟩)
    else .ok (some ⟨buffer, f.processed⟩)
  else .ok none

/-- A pass takes off a header, and processes at most one message. -/
theorem pass_some {f f' : Flint} (h : f.pass = .ok (some f')) :
    f'.mReaderBuffer.length < f.mReaderBuffer.length ∧ (f'.processed = f.processed ∨
      ∃ content, content.length < 2 ^ 31 ∧ f'.processed = f.processed ++ [content]) := by
  simp only [pass] at h
  have hlt := parseInt_lt (f.mReaderBuffer.take (indexOf 58 f.mReaderBuffer).toNat)
  generalize (parseInt (f.mReaderBuffer.take (indexOf 58 f.mReaderBuffer).toNat)).getD 0 = len at *
  split at h
  · rename_i hindex
    have hpos := length_pos_of_indexOf hindex
    split at h
    · obtain ⟨content, hcontent, h⟩ := bind_eq_ok.mp h
      have hlen : content.length ≤ len.toNat := by
        unfold substring at hcontent
        split at hcontent
        · cases hcontent
          rw [List.length_drop, List.length_take]
          omega
        · cases hcontent
      cases h
      exact ⟨by simp only [List.length_drop]; omega, .inr ⟨content, by omega, rfl⟩⟩
    · cases h
      exact ⟨by simp only [List.length_drop]; omega, .inl rfl⟩
  · cases h

/-- The loop of `parseMessage`. -/
def drain (f : Flint) : Except JavaException Flint :=
  match _ : f.pass with
  | .ok (some f') => drain f'
  | .ok none => .ok f
  | .error e => .error e
termination_by f.mReaderBuffer.length
decreasing_by exact (pass_some ‹_›).1

theorem drain_eq (f : Flint) : f.drain = match f.pass with
    | .ok (some f') => f'.drain
    | .ok none => .ok f
    | .error e => .error e := by
  conv_lhs => unfold drain
  split
  all_goals
    rename_i h
    rw [h]

def parseMessage (f : Flint) (message : JavaString) : Except JavaException Flint :=
  { f with mReaderBuffer := f.mReaderBuffer ++ message }.drain

/-- What `TcpClient.run` makes of its reads: a read that is empty is passed over. -/
def received (reads : List Bytes) : List JavaString := (reads.filter (· ≠ [])).map decodeUtf8

def run (f : Flint) (reads : List Bytes) : Except JavaException Flint :=
  (received reads).foldlM parseMessage f

/-! ### Messages -/

inductive Call where
  | setVolume (level : ℚ)
  | setMute (muted : Bool)
  | onWebAppStart (url : JavaString)
  | onWebAppStop (url : JavaString)
  | onNativeAppStart (appInfo : JavaString)
  | onNativeAppStop (appInfo : JavaString)
deriving DecidableEq

/-- The library `org.json`: it reads a document, makes a text of a value that is no string, and
makes numbers and truth values of values; `none` is a `JSONException`. -/
structure OrgJson where
  read : JavaString → Option (Json JavaString)
  valueOf : Json JavaString → JavaString
  toDouble : Json JavaString → Option ℚ
  toBoolean : Json JavaString → Option Bool

abbrev Members := List (JavaString × Json JavaString)

def isNull (members : Members) (name : JavaString) : Bool :=
  match Json.member members name with
  | none => true
  | some .null => true
  | _ => false

def getString (org : OrgJson) (members : Members) (name : JavaString) : Option JavaString :=
  match Json.member members name with
  | none => none
  | some (.string s) => some s
  | some j => some (org.valueOf j)

/-- The part of `processMessage` for an `app_info`. -/
def processUrl (type url : JavaString) : List Call :=
  if lowerStartsWith url (javaString "http://") || lowerStartsWith url (javaString "https://") then
    if type = javaString "LAUNCH_RECEIVER" then [.onWebAppStart url]
    else if type = javaString "STOP_RECEIVER" then [.onWebAppStop url]
    else []
  else if lowerStartsWith url (javaString "app:?") then
    if type = javaString "LAUNCH_RECEIVER" then [.onNativeAppStart (url.drop 5)]
    else if type = javaString "STOP_RECEIVER" then [.onNativeAppStop (url.drop 5)]
    else []
  else []

/-- With a callback that is set. -/
def processMessage (org : OrgJson) (message : JavaString) : List Call :=
  match org.read message with
  | some (.object members) =>
    if isNull members (javaString "type") then []
    else
      match getString org members (javaString "type") with
      | none => []
      | some type =>
        if type = javaString "SET_VOLUME" then
          if isNull members (javaString "level") then []
          else
            match (Json.member members (javaString "level")).bind org.toDouble with
            | some level => [.setVolume level]
            | none => []
        else if type = javaString "SET_MUTED" then
          if isNull members (javaString "muted") then []
          else
            match (Json.member members (javaString "muted")).bind org.toBoolean with
            | some muted => [.setMute muted]
            | none => []
        else if type = javaString "LAUNCH_RECEIVER" ∨ type = javaString "STOP_RECEIVER" then
          match Json.member members (javaString "app_info") with
          | some (.object appInfo) =>
            if isNull appInfo (javaString "url") then []
            else
              match getString org appInfo (javaString "url") with
              | some url => processUrl type url
              | none => []
          | _ => []
        else []
  | _ => []

end Flint
end Flingd.Platform
