import Flingd.Sdk.MediaAnswers

/-! Which messages use an accessor on a value of another kind: the guards test whether a value is null
and of the kind that is read, which none is. -/
namespace Flingd
namespace Json

def isInt (j : Json Bytes) : Bool := j.getInt.isSome

def isString (j : Json Bytes) : Bool := j.getString.isSome

def isObject : Json Bytes → Bool
  | .object _ => true
  | _ => false

def lacks (members : List (Bytes × Json Bytes)) (names : List Bytes) : Bool :=
  names.any fun name => (get members name).isNull

def memberOf (d : Json Bytes) (name : String) : Json Bytes := (d.at? (str name)).getD .null

theorem memberOf_object (members : List (Bytes × Json Bytes)) (name : String) :
    memberOf (.object members) name = get members (str name) := rfl

end Json

theorem isSome_mapM {α β : Type} (f : α → Option β) (xs : List α) :
    (xs.mapM f).isSome = xs.all fun x => (f x).isSome := by
  induction xs with
  | nil => rfl
  | cons x xs ih =>
    rw [List.mapM_cons, List.all_cons, ← ih]
    cases f x with
    | none => rfl
    | some y => cases xs.mapM f <;> rfl

namespace Sdk
open Json

/-- What is called of the player, with numbers of a type `D`. -/
inductive PlayerCall (D : Type) where
  | load (contentId : Bytes)
  | play
  | pause
  | setVolume (volume : D)
  | seek (position : D)
deriving DecidableEq

def MediaRequest.call : MediaRequest → Option (PlayerCall Bytes)
  | .load _ media => some (.load media.contentId_)
  | .play => some .play
  | .pause => some .pause
  | .setVolume volume => some (.setVolume volume)
  | .seek position => some (.seek position)
  | .getStatus => none

/-! ### The kinds that are read

A value fits where it is read with no accessor on a value of another kind. -/

def Image.fits : Json Bytes → Bool
  | .null => true
  | .object members => lacks members [str "url", str "height", str "width"] ||
    (get members (str "height")).isInt && (get members (str "width")).isInt &&
      (get members (str "url")).isString
  | _ => false

/-- Images that are no array are not read. -/
def imagesFit : Json Bytes → Bool
  | .array items => items.all Image.fits
  | _ => true

def Metadata.fits : Json Bytes → Bool
  | .null => true
  | .object members =>
    lacks members [str "studio", str "title", str "subtitle", str "metadataType", str "images"] ||
    (get members (str "studio")).isString && (get members (str "title")).isString &&
      (get members (str "subtitle")).isString && (get members (str "metadataType")).isInt &&
      imagesFit (get members (str "images"))
  | _ => false

/-- A media object that is not created is logged as if it was a text. -/
def MediaInfo.fits : Json Bytes → Bool
  | .object members =>
    !lacks members [str "streamType", str "duration", str "contentType", str "contentId",
      str "metadata"] &&
    ((get members (str "streamType")).isString && (get members (str "duration")).isInt &&
      (get members (str "contentType")).isString && (get members (str "contentId")).isString &&
      Metadata.fits (get members (str "metadata")))
  | _ => false

theorem incomplete_object (members : List (Bytes × Json Bytes)) (names : List Bytes) :
    incomplete (.object members) names = some (lacks members names) := by
  induction names with
  | nil => rfl
  | cons name names ih =>
    have hnull : (Json.object members).isNull = false := rfl
    have hlacks : lacks members (name :: names) = ((get members name).isNull || lacks members names) :=
      rfl
    rw [incomplete, hnull, at?_object, ih, hlacks]
    cases hmember : (get members name).isNull <;> simp [hmember]

theorem Image.create_isSome (value : Json Bytes) :
    (Image.create value).isSome = Image.fits value := by
  cases value with
  | object members =>
    simp only [Image.create, incomplete_object, at?_object, Image.fits, isInt, isString,
      Option.bind_eq_bind, Option.bind_some]
    cases lacks members [str "url", str "height", str "width"] with
    | true => rfl
    | false =>
      cases (get members (str "height")).getInt <;> cases (get members (str "width")).getInt <;>
        cases (get members (str "url")).getString <;> rfl
  | _ => rfl

theorem readImages_isSome (value : Json Bytes) : (readImages value).isSome = imagesFit value := by
  cases value with
  | array items =>
    rw [readImages, imagesFit, isSome_mapM]
    simp only [Image.create_isSome]
  | _ => rfl

theorem Metadata.create_isSome (value : Json Bytes) :
    (Metadata.create value).isSome = Metadata.fits value := by
  cases value with
  | object members =>
    simp only [Metadata.create, incomplete_object, at?_object, Metadata.fits, isInt, isString,
      Option.bind_eq_bind, Option.bind_some, ← readImages_isSome]
    cases lacks members
        [str "studio", str "title", str "subtitle", str "metadataType", str "images"] with
    | true => rfl
    | false =>
      cases (get members (str "studio")).getString <;> cases (get members (str "title")).getString <;>
        cases (get members (str "subtitle")).getString <;>
        cases (get members (str "metadataType")).getInt <;>
        cases readImages (get members (str "images")) <;> rfl
  | _ => rfl

theorem MediaInfo.create_some_some (value : Json Bytes) :
    (MediaInfo.create value).join.isSome = MediaInfo.fits value := by
  cases value with
  | object members =>
    simp only [MediaInfo.create, incomplete_object, at?_object, MediaInfo.fits, isInt, isString,
      Option.bind_eq_bind, Option.bind_some, ← Metadata.create_isSome]
    cases lacks members [str "streamType", str "duration", str "contentType", str "contentId",
        str "metadata"] with
    | true => rfl
    | false =>
      cases (get members (str "streamType")).getString <;>
        cases (get members (str "duration")).getInt <;>
        cases (get members (str "contentType")).getString <;>
        cases (get members (str "contentId")).getString <;>
        cases Metadata.create (get members (str "metadata")) <;> rfl
  | _ => rfl

theorem MediaInfo.create_of_fits {value : Json Bytes} (h : MediaInfo.fits value = true) :
    ∃ media, MediaInfo.create value = some (some media) := by
  rw [← MediaInfo.create_some_some] at h
  obtain ⟨media, hmedia⟩ := Option.isSome_iff_exists.mp h
  exact ⟨media, Option.join_eq_some_iff.mp hmedia⟩

namespace MediaManager

def fits : Json Bytes → Bool
  | .object members =>
    (get members (str "requestId")).isInt && (get members (str "type")).isString &&
      ((get members (str "type")).getString != some (str "LOAD") ||
        MediaInfo.fits (get members (str "media")))
  | _ => false

variable (json : Rapidjson) (within : Bytes → Bool) (s : MediaManager)

/-- A text that does not parse leaves the document null. -/
def document (message : Bytes) : Json Bytes := (json.parse message).getD .null

def calls (message : Bytes) : Option (List (PlayerCall Bytes)) :=
  (understand json within message).map fun
    | some (_, request) => if s.mediaPlayer_ then request.call.toList else []
    | none => []

theorem understandType_isSome (members : List (Bytes × Json Bytes)) (type : Bytes) :
    (understandType within (.object members) type).isSome =
      (type != str "LOAD" || MediaInfo.fits (get members (str "media"))) := by
  unfold understandType
  split
  · next hload =>
    rw [← MediaInfo.create_some_some, hload, bne_self_eq_false, Bool.false_or]
    simp only [at?_object, Option.bind_eq_bind, Option.bind_some]
    rcases MediaInfo.create (get members (str "media")) with - | - | media <;> rfl
  · next hload =>
    rw [bne_iff_ne.mpr hload, Bool.true_or]
    simp only [at?_object, Option.bind_eq_bind, Option.bind_some]
    split
    · rfl
    split
    · rfl
    split
    · split
      · split <;> rfl
      · rfl
    split
    · rfl
    split <;> rfl

theorem understand_isSome (message : Bytes) :
    (understand json within message).isSome =
      ((document json message).isNull || fits (document json message)) := by
  unfold understand document
  rcases json.parse message with - | (- | - | - | - | - | members)
  · rfl
  · rfl
  · rfl
  · rfl
  · rfl
  · rfl
  · simp only [at?_object, Option.bind_eq_bind, Option.bind_some, Option.getD_some]
    have hnull : (Json.object members).isNull = false := rfl
    rw [hnull, Bool.false_or, fits, isInt, isString]
    cases (get members (str "requestId")).getInt with
    | none => rfl
    | some requestId =>
      cases (get members (str "type")).getString with
      | none => rfl
      | some type =>
        have htype := understandType_isSome within members type
        simp only [Option.bind_some, Option.isSome_bind, Option.isSome_some, Option.any_true, htype,
          Bool.true_and]
        rfl

end MediaManager

/-! ### Malformed messages -/

def MediaInfo.wellFormed : Json Bytes → Bool
  | .object members =>
    (get members (str "streamType")).isString && (get members (str "duration")).isInt &&
      (get members (str "contentType")).isString && (get members (str "contentId")).isString &&
      (get members (str "metadata")).isObject
  | _ => false

theorem Metadata.isObject_of_fits {value : Json Bytes} (h : Metadata.fits value = true)
    (hnull : value.isNull = false) : value.isObject = true := by
  cases value with
  | object members => rfl
  | null => cases hnull
  | _ => cases h

theorem MediaInfo.wellFormed_of_fits {value : Json Bytes} (h : MediaInfo.fits value = true) :
    MediaInfo.wellFormed value = true := by
  cases value with
  | object members =>
    simp only [MediaInfo.fits, Bool.and_eq_true, Bool.not_eq_true'] at h
    obtain ⟨hlacks, hkinds, hmetadata⟩ := h
    have hnull : (get members (str "metadata")).isNull = false := by
      simp only [lacks, List.any_cons, Bool.or_eq_false_iff] at hlacks
      exact hlacks.2.2.2.2.1
    simp only [MediaInfo.wellFormed, Bool.and_eq_true]
    exact ⟨hkinds, Metadata.isObject_of_fits hmetadata hnull⟩
  | _ => cases h

namespace MediaManager

/-- An object with an id and a type, and where it loads with a media object. -/
def wellFormed : Json Bytes → Bool
  | .object members =>
    (get members (str "requestId")).isInt && (get members (str "type")).isString &&
      ((get members (str "type")).getString != some (str "LOAD") ||
        MediaInfo.wellFormed (get members (str "media")))
  | _ => false

theorem wellFormed_of_fits {d : Json Bytes} (h : fits d = true) : wellFormed d = true := by
  cases d with
  | object members =>
    simp only [fits, Bool.and_eq_true, Bool.or_eq_true] at h
    obtain ⟨hmembers, hmedia⟩ := h
    simp only [wellFormed, Bool.and_eq_true, Bool.or_eq_true]
    exact ⟨hmembers, hmedia.imp_right MediaInfo.wellFormed_of_fits⟩
  | _ => cases h

variable (json : Rapidjson) (within : Bytes → Bool) (s : MediaManager)

/-- A message that changes nothing: no call, no status and the same media. -/
def Ignored (message : Bytes) (readings : Readings) : Prop :=
  s.calls json within message = some [] ∧
    ∃ x, s.onMessage json within message readings = some x ∧ x.2 = [] ∧ x.1.mediaInfo_ = s.mediaInfo_

theorem onMessage_isSome (message : Bytes) (readings : Readings) :
    (s.onMessage json within message readings).isSome = (understand json within message).isSome := by
  unfold onMessage
  rcases understand json within message with - | - | ⟨requestId, request⟩ <;> rfl

theorem understand_null {message : Bytes} (h : (document json message).isNull = true) :
    understand json within message = some none := by
  rw [document] at h
  unfold understand
  cases hparse : json.parse message with
  | none => rfl
  | some d =>
    rw [hparse, Option.getD_some] at h
    cases d with
    | null => rfl
    | _ => cases h

theorem ignored_of_null {message : Bytes} (readings : Readings)
    (h : (document json message).isNull = true) : s.Ignored json within message readings := by
  have hunderstand := understand_null json within h
  have hcalls : s.calls json within message = some [] := by rw [calls, hunderstand]; rfl
  have hmessage : s.onMessage json within message readings = some (s, []) := by
    rw [onMessage, hunderstand]; rfl
  exact ⟨hcalls, (s, []), hmessage, rfl, rfl⟩

/-- A message uses every accessor on a value of its kind, and is ignored where it is malformed, if it
is null or its values fit, and otherwise not: what is malformed and not null does not fit. -/
theorem malformed_ignored_iff (message : Bytes) (readings : Readings) :
    ((s.onMessage json within message readings).isSome = true ∧
      (wellFormed (document json message) = false → s.Ignored json within message readings)) ↔
    (document json message).isNull = true ∨ fits (document json message) = true := by
  rw [onMessage_isSome, understand_isSome, Bool.or_eq_true]
  constructor
  · exact And.left
  · intro h
    refine ⟨h, fun hmalformed => ?_⟩
    cases h with
    | inl hnull => exact ignored_of_null json within s readings hnull
    | inr hfits => rw [wellFormed_of_fits hfits] at hmalformed; cases hmalformed

def emptyObject : Bytes := Json.write (.object [])

def emptyMedia : Bytes :=
  Json.write (.object [(str "requestId", .number (str "1")), (str "type", .text (str "LOAD")),
    (str "media", .object [])])

theorem empty_request_read :
    (wellFormed (document .compact emptyObject) = false ∧
      (new Exchange.stale).onMessage .compact (fun _ => true) emptyObject Exchange.silent = none) ∧
    wellFormed (document .compact emptyMedia) = false ∧
      (new Exchange.stale).onMessage .compact (fun _ => true) emptyMedia Exchange.silent = none := by
  have hnone (message : Bytes) (h : understand .compact (fun _ => true) message = none) :
      (new Exchange.stale).onMessage .compact (fun _ => true) message Exchange.silent = none := by
    rw [onMessage, h]
    rfl
  exact ⟨⟨by decide +kernel, hnone emptyObject (by decide +kernel)⟩, by decide +kernel,
    hnone emptyMedia (by decide +kernel)⟩

end MediaManager
end Sdk
end Flingd
