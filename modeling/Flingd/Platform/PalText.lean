import Flingd.Platform.PlatformPal
import Flingd.Base.Rapidjson

/-! What `TcpSessionWrapper::processMessage` reads of the text of a message. -/
namespace Flingd.Platform.TcpSessionWrapper

inductive Change where
  | name (name : Bytes)
  | muted (muted : Bool)
  | volume (volume : Bytes)

def change {α : Type} (read : Json Bytes → Option α) (make : α → Change) (value : Json Bytes) :
    Option (List Change) :=
  if value.isNull then some [] else (read value).map fun a => [make a]

/-- `none` where an accessor is used outside its precondition. -/
def processMessage (json : Rapidjson) (message : Bytes) : Option (List Change) :=
  match json.parse message with
  | none => some []
  | some .null => some []
  | some doc => do
    let deviceName ← doc.at? (str "name")
    let names ← change Json.getString .name deviceName
    let volumeMuted ← doc.at? (str "volumeMuted")
    let mutes ← change Json.getBool .muted volumeMuted
    let volumeLevel ← doc.at? (str "volumeLevel")
    let volumes ← change Json.getDouble .volume volumeLevel
    some (names ++ mutes ++ volumes)

def Readable {α : Type} (read : Json Bytes → Option α) (value : Json Bytes) : Prop :=
  value.isNull = false → (read value).isSome = true

theorem change_iff {α : Type} (read : Json Bytes → Option α) (make : α → Change)
    (value : Json Bytes) : (∃ c, change read make value = some c) ↔ Readable read value := by
  unfold change Readable
  cases value.isNull with
  | true => simp
  | false =>
    cases read value <;> simp

/-- The text is no document, or its members have the kinds that they are read as. -/
def Understands (json : Rapidjson) (message : Bytes) : Prop :=
  ∀ doc, json.parse message = some doc → doc.isNull = false → ∃ members, doc = .object members ∧
    Readable Json.getString (Json.get members (str "name")) ∧
    Readable Json.getBool (Json.get members (str "volumeMuted")) ∧
    Readable Json.getDouble (Json.get members (str "volumeLevel"))

theorem processMessage_iff {json : Rapidjson} {message : Bytes} :
    processMessage json message ≠ none ↔ Understands json message := by
  unfold processMessage Understands
  cases hparse : json.parse message with
  | none => simp
  | some doc =>
    cases doc with
    | null => simp [Json.isNull]
    | object members =>
      have hchanges {a b c : Option (List Change)} : (a.bind fun x => b.bind fun y => c.bind fun z =>
          some (x ++ y ++ z)) ≠ none ↔ (∃ x, a = some x) ∧ (∃ y, b = some y) ∧ ∃ z, c = some z := by
        cases a <;> cases b <;> cases c <;> simp
      simp only [Json.at?_object, bind, Option.bind_some]
      rw [hchanges, change_iff, change_iff, change_iff]
      simp [Json.isNull]
    | _ => simp [Json.isNull, Json.at?]

end Flingd.Platform.TcpSessionWrapper
