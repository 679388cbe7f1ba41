import Flingd.Sdk.MediaInfo

/-! `MediaManager.cpp`: the requests of senders to the player of a receiver, and the statuses that they
are told. A number of type `double` is the text of it. -/
namespace Flingd.Sdk
open Json

structure Readings where
  duration : Bytes
  currentTime : Bytes
  volume : Bytes
  mute : Bool
  status : Bytes

inductive Kind where
  | load
  | play
  | pause
  | setVolume
  | seek
deriving DecidableEq

inductive MediaRequest where
  | load (currentTime : Option Bytes) (media : MediaInfo)
  | play
  | pause
  | setVolume (volume : Bytes)
  | seek (position : Bytes)
  | getStatus
deriving DecidableEq

def MediaRequest.kind : MediaRequest → Option Kind
  | .load _ _ => some .load
  | .play => some .play
  | .pause => some .pause
  | .setVolume _ => some .setVolume
  | .seek _ => some .seek
  | .getStatus => none

structure Status where
  requestId : Int
  mediaSessionId : Int
  playbackRate : Int
  supportedMediaCommands : Int
  currentTime : Bytes
  duration : Bytes
  volume : Bytes
  muted : Bool
  playerState : Bytes
  media : Option MediaInfo

namespace Status

def members (status : Status) : List (Bytes × Json Bytes) :=
  [intMember "mediaSessionId" status.mediaSessionId, intMember "playbackRate" status.playbackRate,
    intMember "supportedMediaCommands" status.supportedMediaCommands,
    (str "currentTime", .number status.currentTime), (str "duration", .number status.duration),
    (str "volume", .object [(str "level", .number status.volume), (str "muted", .bool status.muted)]),
    (str "playerState", .text status.playerState)] ++
    (status.media.map fun info => (str "media", .object (info.members status.duration))).toList

def document (status : Status) : Json Bytes :=
  .object [(str "type", .text (str "MEDIA_STATUS")), (str "status", .array [.object status.members]),
    intMember "requestId" status.requestId]

/-- The id is read of a status as it was written. -/
theorem requestId_document {status : Status} (h : -2 ^ 31 ≤ status.requestId)
    (h' : status.requestId < 2 ^ 31) :
    (status.document.at? (str "requestId")).bind getInt = some status.requestId := by
  have hmember : status.document.at? (str "requestId") = some (.number (intText status.requestId)) := rfl
  rw [hmember, Option.bind_some, getInt, lexicalCastInt_intText h h']

end Status

/-- `mediaPlayer_` tells that there is one. -/
structure MediaManager where
  mediaPlayer_ : Bool
  mediaInfo_ : Option MediaInfo
  muted_ : Bool
  playerState_ : Bytes
  volume_ : Bytes
  duration_ : Bytes
  currentTime_ : Bytes
  playbackRate_ : Int
  supportedMediaCommands_ : Int
  mediaSessionId_ : Int
  requestIdLoad_ : Int
  requestIdPlay_ : Int
  requestIdPause_ : Int
  requestIdSetVolume_ : Int
  requestIdSeek_ : Int

namespace MediaManager
variable (json : Rapidjson) (s : MediaManager)

/-- The constructor leaves what is in `memory` where it sets nothing. -/
def new (memory : MediaManager) : MediaManager :=
  { memory with
    mediaPlayer_ := false
    mediaInfo_ := none
    playerState_ := str "IDLE"
    volume_ := str "0"
    playbackRate_ := 1
    supportedMediaCommands_ := 15
    mediaSessionId_ := 1 }

def setMediaPlayer (mediaPlayer : Bool) : MediaManager := { s with mediaPlayer_ := mediaPlayer }

def requestId : Kind → Int
  | .load => s.requestIdLoad_
  | .play => s.requestIdPlay_
  | .pause => s.requestIdPause_
  | .setVolume => s.requestIdSetVolume_
  | .seek => s.requestIdSeek_

def setRequestId (requestId : Int) : Kind → MediaManager
  | .load => { s with requestIdLoad_ := requestId }
  | .play => { s with requestIdPlay_ := requestId }
  | .pause => { s with requestIdPause_ := requestId }
  | .setVolume => { s with requestIdSetVolume_ := requestId }
  | .seek => { s with requestIdSeek_ := requestId }

/-! ### Statuses -/

/-- With the status that is sent. -/
def postPlayerStatus (readings : Readings) (requestId : Int) (status : Bytes) :
    MediaManager × List Status :=
  if s.mediaPlayer_ then
    let s := { s with
      duration_ := readings.duration
      currentTime_ := readings.currentTime
      volume_ := readings.volume
      muted_ := readings.mute
      playerState_ := if status = [] then readings.status else status }
    (s, [⟨requestId, s.mediaSessionId_, s.playbackRate_, s.supportedMediaCommands_, s.currentTime_,
      s.duration_, s.volume_, s.muted_, s.playerState_, s.mediaInfo_⟩])
  else (s, [])

def answer (k : Kind) (status : String) (readings : Readings) : MediaManager × List Status :=
  let (t, posted) := s.postPlayerStatus readings (s.requestId k) (str status)
  (t.setRequestId 0 k, posted)

def onLoaded : Readings → MediaManager × List Status := s.answer .load "PLAYING"

def onPlaying : Readings → MediaManager × List Status := s.answer .play "PLAYING"

def onPaused : Readings → MediaManager × List Status := s.answer .pause "PAUSED"

def onSeeked : Readings → MediaManager × List Status := s.answer .seek "PLAYING"

def onVolumeChanged (_volume : Bytes) : Readings → MediaManager × List Status :=
  s.answer .setVolume "PAUSED"

def onBuffering (readings : Readings) : MediaManager × List Status :=
  s.postPlayerStatus readings 0 (str "BUFFERING")

def onIdle (readings : Readings) : MediaManager × List Status :=
  s.postPlayerStatus readings 0 (str "IDLE")

def onEnded (readings : Readings) : MediaManager × List Status :=
  s.postPlayerStatus readings 0 (str "IDLE")

def onError (readings : Readings) : MediaManager × List Status :=
  s.postPlayerStatus readings 0 (str "IDLE")

/-! ### Requests -/

def ask (requestId : Int) (k : Kind) : MediaManager :=
  if s.mediaPlayer_ then s.setRequestId requestId k else s

def doLoad (mediaInfo : MediaInfo) (requestId : Int) : MediaManager :=
  { s with mediaInfo_ := some mediaInfo }.ask requestId .load

def doPlay (requestId : Int) : MediaManager := s.ask requestId .play

def doPause (requestId : Int) : MediaManager := s.ask requestId .pause

def doSeek (_position : Bytes) (requestId : Int) : MediaManager := s.ask requestId .seek

def doSetVolume (_volume : Bytes) (requestId : Int) : MediaManager := s.ask requestId .setVolume

def doGetStatus (readings : Readings) (requestId : Int) : MediaManager × List Status :=
  s.postPlayerStatus readings requestId []

def perform (readings : Readings) (requestId : Int) : MediaRequest → MediaManager × List Status
  | .load currentTime media =>
    ({ s with currentTime_ := currentTime.getD s.currentTime_ }.doLoad media requestId, [])
  | .play => (s.doPlay requestId, [])
  | .pause => (s.doPause requestId, [])
  | .setVolume volume => (s.doSetVolume volume requestId, [])
  | .seek position => (s.doSeek position requestId, [])
  | .getStatus => s.doGetStatus readings requestId

/-! ### Messages

`within` tells whether a number lies between 0 and 1. -/

variable (within : Bytes → Bool)

def doubleOf (value : Json Bytes) : Option Bytes := if value.isDouble then value.getDouble else none

/-- The test of a request of this type; `none` where an accessor is used outside its precondition, as it
is to log that a media object cannot be read. -/
def understandType (d : Json Bytes) (type : Bytes) : Option (Option MediaRequest) :=
  if type = str "LOAD" then do
    let currentTime ← d.at? (str "currentTime")
    let media ← MediaInfo.create (← d.at? (str "media"))
    match media with
    | some media => some (some (.load (doubleOf currentTime) media))
    | none => none
  else if type = str "PAUSE" then some (some .pause)
  else if type = str "PLAY" then some (some .play)
  else if type = str "SET_VOLUME" then do
    match ← d.at? (str "volume") with
    | .object members =>
      match doubleOf (get members (str "level")) with
      | some volume => some (if within volume then some (.setVolume volume) else none)
      | none => some none
    | _ => some none
  else if type = str "SEEK" then do
    let currentTime ← d.at? (str "currentTime")
    some ((doubleOf currentTime).map .seek)
  else if type = str "GET_STATUS" then some (some .getStatus)
  else some none

def understand (message : Bytes) : Option (Option (Int × MediaRequest)) :=
  match json.parse message with
  | none => some none
  | some .null => some none
  | some d => do
    let requestId ← (← d.at? (str "requestId")).getInt
    let type ← (← d.at? (str "type")).getString
    let request ← understandType within d type
    some (request.map fun request => (requestId, request))

def onMessage (message : Bytes) (readings : Readings) : Option (MediaManager × List Status) := do
  match ← understand json within message with
  | some (requestId, request) => some (s.perform readings requestId request)
  | none => some (s, [])

/-- What happens to the manager; `readings` are what the player says then. -/
inductive Event where
  | onMessage (message : Bytes)
  | setMediaPlayer (mediaPlayer : Bool)
  | onLoaded
  | onPlaying
  | onPaused
  | onSeeked
  | onVolumeChanged (volume : Bytes)
  | onBuffering
  | onIdle
  | onEnded
  | onError

def step (e : Event) (readings : Readings) : Option (MediaManager × List Status) :=
  match e with
  | .onMessage message => s.onMessage json within message readings
  | .setMediaPlayer mediaPlayer => some (s.setMediaPlayer mediaPlayer, [])
  | .onLoaded => some (s.onLoaded readings)
  | .onPlaying => some (s.onPlaying readings)
  | .onPaused => some (s.onPaused readings)
  | .onSeeked => some (s.onSeeked readings)
  | .onVolumeChanged volume => some (s.onVolumeChanged volume readings)
  | .onBuffering => some (s.onBuffering readings)
  | .onIdle => some (s.onIdle readings)
  | .onEnded => some (s.onEnded readings)
  | .onError => some (s.onError readings)

end MediaManager
end Flingd.Sdk
