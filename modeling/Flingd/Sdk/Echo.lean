import Flingd.Sdk.PlayerState
import Flingd.Sdk.Accessors

/-! The media object of a status, as a reader of media objects finds it. The writer sets the members of
the metadata beside the object where the reader looks for them, which stays empty. -/
namespace Flingd
namespace Json

/-- What stands before with other names is passed over. -/
theorem get_append {xs ys : List (Bytes × Json Bytes)} {name : Bytes} (h : ∀ m ∈ xs, m.1 ≠ name) :
    get (xs ++ ys) name = get ys name := by
  have hnone : xs.find? (·.1 = name) = none := by
    simpa only [List.find?_eq_none, decide_eq_true_eq] using h
  unfold get member
  rw [List.find?_append, hnone, Option.none_or]

end Json

namespace Sdk
open Json

/-! ### What is read of the members -/

theorem textMember_eq (name : String) {s : Bytes} (h : s ≠ []) :
    textMember name s = [(str name, .text s)] := if_pos (List.length_pos_iff.mpr h)

theorem name_of_mem_textMember {name : String} {s : Bytes} {m : Bytes × Json Bytes}
    (h : m ∈ textMember name s) : m.1 = str name := by
  unfold textMember at h
  split at h
  · obtain rfl := List.mem_singleton.mp h
    rfl
  · cases h

/-- The names that are written for the metadata. -/
theorem name_of_mem_members {metadata : Metadata} {m : Bytes × Json Bytes}
    (h : m ∈ metadata.members) :
    m.1 ∈ [str "title", str "subtitle", str "images", str "metadataType"] := by
  unfold Metadata.members at h
  simp only [List.mem_append, List.mem_singleton] at h
  rcases h with ((h | h) | h) | h
  · rw [name_of_mem_textMember h]; decide
  · rw [name_of_mem_textMember h]; decide
  · split at h
    · obtain rfl := List.mem_singleton.mp h
      simp
    · cases h
  · rw [h]
    simp [intMember]

/-- The metadata of a written media object is an object without members. -/
theorem MediaInfo.get_metadata (info : MediaInfo) (duration : Bytes) :
    get (info.members duration) (str "metadata") = .object [] := by
  have hother : ∀ name ∈ [str "streamType", str "duration", str "contentType", str "contentId",
      str "title", str "subtitle", str "images", str "metadataType"], name ≠ str "metadata" := by decide
  have hmetadata : ∀ m ∈ (info.metadata_.map Metadata.members).getD [], m.1 ≠ str "metadata" := by
    intro m hm
    cases hinfo : info.metadata_ with
    | none => rw [hinfo] at hm; cases hm
    | some metadata =>
      rw [hinfo] at hm
      exact hother m.1 (List.mem_of_mem_drop (i := 4) (name_of_mem_members hm))
  unfold MediaInfo.members
  rw [get_append]
  · rfl
  · intro m hm
    simp only [List.mem_append, List.mem_singleton] at hm
    rcases hm with (((hm | hm) | hm) | hm) | hm
    · rw [name_of_mem_textMember hm]; decide
    · rw [hm]
      exact hother (str "duration") (by decide)
    · rw [name_of_mem_textMember hm]; decide
    · rw [name_of_mem_textMember hm]; decide
    · exact hmetadata m hm

/-- What is created of a written media object: no metadata, and the whole of it only where the duration
is written without a fraction. -/
theorem MediaInfo.create_members {info : MediaInfo} (duration : Bytes) (hstream : info.streamType_ ≠ [])
    (htype : info.contentType_ ≠ []) (hid : info.contentId_ ≠ []) :
    MediaInfo.create (.object (info.members duration)) = (lexicalCastInt duration).map fun n =>
      some ⟨cStr info.streamType_, n, cStr info.contentType_, cStr info.contentId_, none⟩ := by
  have hmetadata := info.get_metadata duration
  have hmembers : info.members duration = (str "streamType", .text info.streamType_) ::
      (str "duration", .number duration) :: (str "contentType", .text info.contentType_) ::
      (str "contentId", .text info.contentId_) ::
      ((info.metadata_.map Metadata.members).getD [] ++ [(str "metadata", .object [])]) := by
    unfold MediaInfo.members
    rw [textMember_eq _ hstream, textMember_eq _ htype, textMember_eq _ hid]
    simp
  have hget1 : get (info.members duration) (str "streamType") = .text info.streamType_ := by
    rw [hmembers]; rfl
  have hget2 : get (info.members duration) (str "duration") = .number duration := by
    rw [hmembers]; rfl
  have hget3 : get (info.members duration) (str "contentType") = .text info.contentType_ := by
    rw [hmembers]; rfl
  have hget4 : get (info.members duration) (str "contentId") = .text info.contentId_ := by
    rw [hmembers]; rfl
  have hlacks : lacks (info.members duration) [str "streamType", str "duration", str "contentType",
      str "contentId", str "metadata"] = false := by
    simp only [lacks, List.any_cons, hget1, hget2, hget3, hget4, hmetadata]
    rfl
  have hcreate : Metadata.create (.object []) = some none := by decide
  simp only [MediaInfo.create, incomplete_object, hlacks, at?_object, hget1, hget2, hget3, hget4,
    hmetadata, hcreate, getString_text, getInt, Option.bind_eq_bind, Option.bind_some]
  cases lexicalCastInt duration <;> rfl

namespace MediaManager

def mediaOf (d : Json Bytes) : Json Bytes :=
  match memberOf d "status" with
  | .array (status :: _) => memberOf status "media"
  | _ => .null

theorem mediaOf_document {status : Status} {info : MediaInfo} (h : status.media = some info) :
    mediaOf status.document = .object (info.members status.duration) := by
  have hmedia : mediaOf status.document = get status.members (str "media") := rfl
  rw [hmedia, Status.members, h]
  rfl

def hasUrl : Option Image → Bool
  | some image => 0 < image.url_.length
  | none => false

/-- A media object is read as the media that was loaded. -/
def Echoes (info : MediaInfo) (metadata : Metadata) (media : Json Bytes) : Prop :=
  ∃ read readMetadata, MediaInfo.create media = some (some read) ∧
    read.metadata_ = some readMetadata ∧ read.streamType_ = info.streamType_ ∧
    read.contentType_ = info.contentType_ ∧ read.contentId_ = info.contentId_ ∧
    readMetadata.title_ = metadata.title_ ∧ readMetadata.subtitle_ = metadata.subtitle_ ∧
    readMetadata.metadataType_ = metadata.metadataType_ ∧
    readMetadata.images_ = metadata.images_.filter hasUrl

variable (json : Rapidjson) (within : Bytes → Bool)

def Loads (e : Event) (info : MediaInfo) : Prop :=
  match e with
  | .onMessage message => ∃ n currentTime,
    understand json within message = some (some (n, .load currentTime info))
  | _ => False

variable {json within} {s : MediaManager} {readings : Readings}

theorem postPlayerStatus_media (s : MediaManager) (readings : Readings) (n : Int) (status : Bytes) :
    (s.postPlayerStatus readings n status).1.mediaInfo_ = s.mediaInfo_ ∧
      ∀ posted ∈ (s.postPlayerStatus readings n status).2, posted.media = s.mediaInfo_ := by
  unfold postPlayerStatus
  split
  · refine ⟨rfl, fun posted hposted => ?_⟩
    obtain rfl := List.mem_singleton.mp hposted
    rfl
  · exact ⟨rfl, fun _ h => absurd h List.not_mem_nil⟩

theorem setRequestId_media (s : MediaManager) (n : Int) (k : Kind) :
    (s.setRequestId n k).mediaInfo_ = s.mediaInfo_ := by
  cases k <;> rfl

theorem ask_media (s : MediaManager) (n : Int) (k : Kind) :
    (s.ask n k).mediaInfo_ = s.mediaInfo_ := by
  unfold ask
  split
  · exact setRequestId_media s n k
  · rfl

/-- The media object of all statuses of a step is that of before it. -/
theorem step_tells {e : Event} {x : MediaManager × List Status}
    (h : s.step json within e readings = some x) : ∀ posted ∈ x.2, posted.media = s.mediaInfo_ := by
  have hpost (n : Int) (status : Bytes) := (postPlayerStatus_media s readings n status).2
  cases e with
  | onMessage message =>
    obtain ⟨request, -, h⟩ := Option.bind_eq_some_iff.mp h
    rcases request with - | ⟨n, request⟩
    · obtain rfl := Option.some.inj h
      exact fun _ h => absurd h List.not_mem_nil
    · obtain rfl := Option.some.inj h
      cases request with
      | getStatus => exact hpost n []
      | _ => exact fun _ h => absurd h List.not_mem_nil
  | setMediaPlayer mediaPlayer =>
    obtain rfl := Option.some.inj h
    exact fun _ h => absurd h List.not_mem_nil
  | _ =>
    obtain rfl := Option.some.inj h
    exact hpost _ _

/-- Only a message that loads a media object changes it. -/
theorem step_media {e : Event} {x : MediaManager × List Status}
    (h : s.step json within e readings = some x) (hload : ∀ info, ¬ Loads json within e info) :
    x.1.mediaInfo_ = s.mediaInfo_ := by
  have hpost (n : Int) (status : Bytes) := (postPlayerStatus_media s readings n status).1
  cases e with
  | onMessage message =>
    obtain ⟨request, hrequest, h⟩ := Option.bind_eq_some_iff.mp h
    rcases request with - | ⟨n, request⟩
    · obtain rfl := Option.some.inj h
      rfl
    · obtain rfl := Option.some.inj h
      cases request with
      | load currentTime info => exact absurd ⟨n, currentTime, hrequest⟩ (hload info)
      | getStatus => exact hpost n []
      | _ => exact ask_media _ _ _
  | setMediaPlayer mediaPlayer =>
    obtain rfl := Option.some.inj h
    rfl
  | _ =>
    obtain rfl := Option.some.inj h
    first
      | exact (setRequestId_media _ 0 _).trans (hpost _ _)
      | exact hpost _ _

theorem step_load {e : Event} {x : MediaManager × List Status} {info : MediaInfo}
    (h : s.step json within e readings = some x) (hload : Loads json within e info) :
    x.1.mediaInfo_ = some info := by
  cases e with
  | onMessage message =>
    obtain ⟨n, currentTime, hload⟩ := hload
    obtain ⟨request, hrequest, h⟩ := Option.bind_eq_some_iff.mp h
    obtain rfl := Option.some.inj (hload.symm.trans hrequest)
    obtain rfl := Option.some.inj h
    exact ask_media _ _ _
  | _ => cases hload

theorem run_media {es : List (Event × Readings)} {t : MediaManager}
    (h : run json within s es = some t) (hload : ∀ e ∈ es, ∀ info, ¬ Loads json within e.1 info) :
    t.mediaInfo_ = s.mediaInfo_ := by
  induction es generalizing s with
  | nil =>
    obtain rfl := Option.some.inj h
    rfl
  | cons e es ih =>
    obtain ⟨u, hu, h⟩ := Option.bind_eq_some_iff.mp h
    obtain ⟨x, hx, rfl⟩ := Option.map_eq_some_iff.mp hu
    rw [ih h fun e he => hload e (List.mem_cons_of_mem _ he),
      step_media hx (hload e List.mem_cons_self)]

/-- What is read of the media object of every status after a media object was loaded and until the next
is: the object where the metadata is looked for has no members, so that it is never what was loaded. -/
theorem media_not_echoed (load e : Event × Readings) {x y : MediaManager × List Status}
    {es : List (Event × Readings)} {t : MediaManager} {info : MediaInfo} {status : Status}
    (hx : s.step json within load.1 load.2 = some x) (hload : Loads json within load.1 info)
    (hstrings : info.streamType_ ≠ [] ∧ info.contentType_ ≠ [] ∧ info.contentId_ ≠ [])
    (hes : ∀ e ∈ es, ∀ info, ¬ Loads json within e.1 info) (ht : run json within x.1 es = some t)
    (hy : t.step json within e.1 e.2 = some y) (hstatus : status ∈ y.2) :
    memberOf (mediaOf status.document) "metadata" = .object [] ∧
    MediaInfo.create (mediaOf status.document) = (lexicalCastInt status.duration).map (fun n =>
      some ⟨cStr info.streamType_, n, cStr info.contentType_, cStr info.contentId_, none⟩) ∧
    ∀ metadata, info.metadata_ = some metadata →
      ¬ Echoes info metadata (mediaOf status.document) := by
  have hmedia : status.media = some info := by
    rw [step_tells hy status hstatus, run_media ht hes, step_load hx hload]
  have hcreate := MediaInfo.create_members status.duration hstrings.1 hstrings.2.1 hstrings.2.2
  rw [mediaOf_document hmedia]
  refine ⟨info.get_metadata status.duration, hcreate, fun metadata _ => ?_⟩
  rintro ⟨read, readMetadata, hread, hnone, -⟩
  rw [hcreate, Option.map_eq_some_iff] at hread
  obtain ⟨n, -, hread⟩ := hread
  obtain rfl := Option.some.inj hread
  cases hnone

/-! ### A movie -/

def movieMetadata : Metadata := ⟨str "a", str "b", str "c", 1, [some ⟨2, 3, str "d"⟩]⟩

def movie : MediaInfo := ⟨str "e", 60, str "f", str "g", some movieMetadata⟩

def loadMovie : Bytes :=
  Json.write (.object [intMember "requestId" 1, (str "type", .text (str "LOAD")),
    (str "media", .object [(str "streamType", .text (str "e")), intMember "duration" 60,
      (str "contentType", .text (str "f")), (str "contentId", .text (str "g")),
      (str "metadata", .object [(str "studio", .text (str "a")), (str "title", .text (str "b")),
        (str "subtitle", .text (str "c")), intMember "metadataType" 1,
        (str "images", .array [.object [(str "url", .text (str "d")), intMember "height" 2,
          intMember "width" 3]])])])])

theorem loads_loadMovie : Loads .compact (fun _ => true) (.onMessage loadMovie) movie :=
  ⟨1, none, by decide +kernel⟩

def showing : MediaManager :=
  (((new Exchange.stale).setMediaPlayer true).perform Exchange.silent 1 (.load none movie)).1

theorem step_loadMovie : ((new Exchange.stale).setMediaPlayer true).step .compact (fun _ => true)
    (.onMessage loadMovie) Exchange.silent = some (showing, []) := by
  have hunderstand : understand .compact (fun _ => true) loadMovie =
      some (some (1, .load none movie)) := by decide +kernel
  rw [step, onMessage, hunderstand]
  rfl

/-- The status that tells that it is loaded. -/
theorem movie_not_echoed : ∃ status ∈ (showing.onLoaded Exchange.silent).2,
    ((new Exchange.stale).setMediaPlayer true).step .compact (fun _ => true) (.onMessage loadMovie)
      Exchange.silent = some (showing, []) ∧
    Loads .compact (fun _ => true) (.onMessage loadMovie) movie ∧
    memberOf (mediaOf status.document) "title" = .text movieMetadata.title_ ∧
    memberOf (mediaOf status.document) "metadata" = .object [] ∧
    MediaInfo.create (mediaOf status.document) = none :=
  ⟨_, List.mem_singleton_self _, step_loadMovie, loads_loadMovie, rfl, rfl, rfl⟩

theorem media_not_echoed_movie : ∃ status ∈ (showing.onPlaying Exchange.silent).2,
    ¬ Echoes movie movieMetadata (mediaOf status.document) := by
  have hes : ∀ e ∈ [((.onBuffering : Event), Exchange.silent)], ∀ info,
      ¬ Loads .compact (fun _ => true) e.1 info := by
    intro e he info hload
    obtain rfl := List.mem_singleton.mp he
    exact hload
  have hstrings : movie.streamType_ ≠ [] ∧ movie.contentType_ ≠ [] ∧ movie.contentId_ ≠ [] := by decide
  have hnot := media_not_echoed (.onMessage loadMovie, Exchange.silent)
    (.onPlaying, Exchange.silent) step_loadMovie loads_loadMovie hstrings hes rfl rfl
    (List.mem_singleton_self _)
  exact ⟨_, List.mem_singleton_self _, hnot.2.2 movieMetadata rfl⟩

end MediaManager
end Sdk
end Flingd
