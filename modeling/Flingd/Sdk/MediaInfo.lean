import Flingd.Base.Rapidjson

/-! `MediaInfo.cpp`: what is played, as it is read of a message and written into a status. `none` is
an accessor that is used outside its precondition; a pointer that is NULL is `none` in an `Option`. -/
namespace Flingd.Sdk
open Json

structure Image where
  height_ : Int
  width_ : Int
  url_ : Bytes
deriving DecidableEq

structure Metadata where
  studio_ : Bytes
  title_ : Bytes
  subtitle_ : Bytes
  metadataType_ : Int
  images_ : List (Option Image)
deriving DecidableEq

structure MediaInfo where
  streamType_ : Bytes
  duration_ : Int
  contentType_ : Bytes
  contentId_ : Bytes
  metadata_ : Option Metadata
deriving DecidableEq

/-- The test before a value is read: it is null, or a member of these is. -/
def incomplete (value : Json Bytes) : List Bytes → Option Bool
  | [] => some false
  | name :: names => do
    if value.isNull then some true
    else do
      let member ← value.at? name
      if member.isNull then some true else incomplete value names

def Image.create (value : Json Bytes) : Option (Option Image) := do
  if ← incomplete value [str "url", str "height", str "width"] then some none
  else do
    let height ← (← value.at? (str "height")).getInt
    let width ← (← value.at? (str "width")).getInt
    let url ← (← value.at? (str "url")).getString
    some (some ⟨height, width, url⟩)

def readImages : Json Bytes → Option (List (Option Image))
  | .array items => items.mapM Image.create
  | _ => some []

def Metadata.create (value : Json Bytes) : Option (Option Metadata) := do
  if ← incomplete value [str "studio", str "title", str "subtitle", str "metadataType", str "images"] then
    some none
  else do
    let studio ← (← value.at? (str "studio")).getString
    let title ← (← value.at? (str "title")).getString
    let subtitle ← (← value.at? (str "subtitle")).getString
    let metadataType ← (← value.at? (str "metadataType")).getInt
    let images ← readImages (← value.at? (str "images"))
    some (some ⟨studio, title, subtitle, metadataType, images⟩)

def MediaInfo.create (value : Json Bytes) : Option (Option MediaInfo) := do
  if ← incomplete value
      [str "streamType", str "duration", str "contentType", str "contentId", str "metadata"] then
    some none
  else do
    let streamType ← (← value.at? (str "streamType")).getString
    let duration ← (← value.at? (str "duration")).getInt
    let contentType ← (← value.at? (str "contentType")).getString
    let contentId ← (← value.at? (str "contentId")).getString
    let metadata ← Metadata.create (← value.at? (str "metadata"))
    some (some ⟨streamType, duration, contentType, contentId, metadata⟩)

/-! ### In a status -/

/-- A member that is written where its text is not empty. -/
def textMember (name : String) (text : Bytes) : List (Bytes × Json Bytes) :=
  if 0 < text.length then [(str name, .text text)] else []

def intMember (name : String) (n : Int) : Bytes × Json Bytes := (str name, .number (intText n))

/-- An image without an address is left out. -/
def Image.items : Option Image → List (Json Bytes)
  | none => []
  | some image =>
    if 0 < image.url_.length then
      [.object [intMember "height" image.height_, intMember "width" image.width_,
        (str "url", .text image.url_)]]
    else []

def Metadata.members (metadata : Metadata) : List (Bytes × Json Bytes) :=
  textMember "title" metadata.title_ ++ textMember "subtitle" metadata.subtitle_ ++
    (if 0 < metadata.images_.length then
      [(str "images", .array (metadata.images_.flatMap Image.items))]
    else []) ++
    [intMember "metadataType" metadata.metadataType_]

/-- The members of the metadata stand beside it, and the object of its name is empty. -/
def MediaInfo.members (info : MediaInfo) (duration : Bytes) : List (Bytes × Json Bytes) :=
  textMember "streamType" info.streamType_ ++ [(str "duration", .number duration)] ++
    textMember "contentType" info.contentType_ ++ textMember "contentId" info.contentId_ ++
    (info.metadata_.map Metadata.members).getD [] ++ [(str "metadata", .object [])]

end Flingd.Sdk
