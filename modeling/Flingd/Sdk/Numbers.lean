import Mathlib.Data.Rat.Defs
import Mathlib.Algebra.Field.Rat
import Mathlib.Data.List.Forall2
import Flingd.Sdk.Accessors

/-! Messages that differ in how a number is written. A whole number without a fraction is an integer,
which is no double; and the doubles of a message are read only where they are doubles. -/
namespace Flingd

def numberValue (text : Bytes) : ℚ :=
  let (negative, rest) := readSign text
  let whole := rest.takeWhile isDigit
  let rest := rest.dropWhile isDigit
  let (fraction, rest) : Bytes × Bytes := match rest with
    | 46 :: rest => (rest.takeWhile isDigit, rest.dropWhile isDigit)
    | rest => ([], rest)
  let exponent : Int := match rest with
    | 69 :: rest | 101 :: rest =>
      let (negative, digits) := readSign rest
      if negative then -digitsValue digits else digitsValue digits
    | _ => 0
  let magnitude : ℚ := digitsValue (whole ++ fraction) * 10 ^ (exponent - fraction.length)
  if negative then -magnitude else magnitude

/-- An integer names itself. -/
theorem numberValue_lexicalCastInt {text : Bytes} {n : Int} (h : lexicalCastInt text = some n) :
    numberValue text = n := by
  unfold lexicalCastInt at h
  unfold numberValue
  generalize readSign text = sign at h ⊢
  obtain ⟨negative, digits⟩ := sign
  dsimp only at h ⊢
  obtain ⟨⟨-, hall, -, -⟩, hvalue⟩ := Option.ite_none_right_eq_some.mp h
  have htake : digits.takeWhile isDigit = digits :=
    List.takeWhile_eq_self_iff.mpr (List.all_eq_true.mp hall)
  have hdrop : digits.dropWhile isDigit = [] :=
    List.dropWhile_eq_nil_iff.mpr (List.all_eq_true.mp hall)
  obtain rfl := Option.some.inj hvalue
  rw [htake, hdrop]
  cases negative <;> simp

namespace Json

/-- Documents that differ in how a number is written only. -/
inductive Alike : Json Bytes → Json Bytes → Prop where
  | null : Alike .null .null
  | bool (b : Bool) : Alike (.bool b) (.bool b)
  | number {text text' : Bytes} (h : numberValue text = numberValue text') :
    Alike (.number text) (.number text')
  | string (s : Bytes) : Alike (.string s) (.string s)
  | array {items items' : List (Json Bytes)} (h : List.Forall₂ Alike items items') :
    Alike (.array items) (.array items')
  | object {members members' : List (Bytes × Json Bytes)}
    (hnames : members.map (·.1) = members'.map (·.1))
    (h : List.Forall₂ (fun m m' => Alike m.2 m'.2) members members') :
    Alike (.object members) (.object members')

def number? : Json Bytes → Option ℚ
  | .number text => some (numberValue text)
  | _ => none

variable {j j' : Json Bytes}

theorem get_cons (name name' : Bytes) (j : Json Bytes) (members : List (Bytes × Json Bytes)) :
    get ((name, j) :: members) name' = if name = name' then j else get members name' := by
  unfold get member
  rw [List.find?_cons]
  by_cases h : name = name' <;> simp [h]

theorem Alike.get {members members' : List (Bytes × Json Bytes)}
    (hnames : members.map (·.1) = members'.map (·.1))
    (h : List.Forall₂ (fun m m' => Alike m.2 m'.2) members members') (name : Bytes) :
    Alike (Json.get members name) (Json.get members' name) := by
  induction h with
  | nil => exact .null
  | @cons m m' members members' hm h ih =>
    rw [List.map_cons, List.map_cons, List.cons.injEq] at hnames
    rw [get_cons, get_cons, hnames.1]
    split
    · exact hm
    · exact ih hnames.2

theorem Alike.isNull (h : Alike j j') : j.isNull = j'.isNull := by cases h <;> rfl

theorem Alike.getString (h : Alike j j') : j.getString = j'.getString := by cases h <;> rfl

theorem Alike.number? (h : Alike j j') : j.number? = j'.number? := by
  cases h with
  | number h => exact congrArg some h
  | _ => rfl

/-- An integer is the number of its value. -/
theorem number?_getInt {n : Int} (h : j.getInt = some n) : j.number? = some (n : ℚ) := by
  cases j with
  | number text => exact congrArg some (numberValue_lexicalCastInt h)
  | _ => cases h

/-- The same number, where both write it as an integer. -/
theorem Alike.getInt (h : Alike j j') (hj : j.isInt = true) (hj' : j'.isInt = true) :
    j.getInt = j'.getInt := by
  obtain ⟨n, hn⟩ := Option.isSome_iff_exists.mp hj
  obtain ⟨n', hn'⟩ := Option.isSome_iff_exists.mp hj'
  have hvalue := h.number?
  rw [number?_getInt hn, number?_getInt hn', Option.some_inj, Int.cast_inj] at hvalue
  rw [hn, hn', hvalue]

theorem Alike.lacks {members members' : List (Bytes × Json Bytes)}
    (hnames : members.map (·.1) = members'.map (·.1))
    (h : List.Forall₂ (fun m m' => Alike m.2 m'.2) members members') (names : List Bytes) :
    Json.lacks members names = Json.lacks members' names := by
  unfold Json.lacks
  congr 1
  funext name
  exact (Alike.get hnames h name).isNull

end Json

namespace Sdk
open Json

/-! ### What is created -/

theorem Image.create_alike {value value' : Json Bytes} (h : Alike value value')
    (hfits : Image.fits value = true) (hfits' : Image.fits value' = true) :
    Image.create value = Image.create value' := by
  cases h with
  | null => rfl
  | object hnames h =>
    have hget := Alike.get hnames h
    rw [Image.fits] at hfits hfits'
    rw [← Alike.lacks hnames h] at hfits'
    simp only [Image.create, incomplete_object, at?_object, Option.bind_eq_bind, Option.bind_some,
      ← Alike.lacks hnames h]
    cases hlacks : Json.lacks _ [str "url", str "height", str "width"] with
    | true => rfl
    | false =>
      simp only [hlacks, Bool.false_or, Bool.and_eq_true] at hfits hfits'
      obtain ⟨⟨hheight, hwidth⟩, -⟩ := hfits
      obtain ⟨⟨hheight', hwidth'⟩, -⟩ := hfits'
      simp only [(hget (str "height")).getInt hheight hheight',
        (hget (str "width")).getInt hwidth hwidth', (hget (str "url")).getString]
  | _ => cases hfits

theorem readImages_alike {value value' : Json Bytes} (h : Alike value value')
    (hfits : imagesFit value = true) (hfits' : imagesFit value' = true) :
    readImages value = readImages value' := by
  cases h with
  | array h =>
    rw [imagesFit] at hfits hfits'
    rw [readImages, readImages]
    induction h with
    | nil => rfl
    | @cons item item' items items' hitem h ih =>
      rw [List.all_cons, Bool.and_eq_true] at hfits hfits'
      rw [List.mapM_cons, List.mapM_cons, Image.create_alike hitem hfits.1 hfits'.1,
        ih hfits.2 hfits'.2]
  | _ => rfl

theorem Metadata.create_alike {value value' : Json Bytes} (h : Alike value value')
    (hfits : Metadata.fits value = true) (hfits' : Metadata.fits value' = true) :
    Metadata.create value = Metadata.create value' := by
  cases h with
  | null => rfl
  | object hnames h =>
    have hget := Alike.get hnames h
    rw [Metadata.fits] at hfits hfits'
    rw [← Alike.lacks hnames h] at hfits'
    simp only [Metadata.create, incomplete_object, at?_object, Option.bind_eq_bind, Option.bind_some,
      ← Alike.lacks hnames h]
    cases hlacks : Json.lacks _
        [str "studio", str "title", str "subtitle", str "metadataType", str "images"] with
    | true => rfl
    | false =>
      simp only [hlacks, Bool.false_or, Bool.and_eq_true] at hfits hfits'
      obtain ⟨⟨-, htype⟩, himages⟩ := hfits
      obtain ⟨⟨-, htype'⟩, himages'⟩ := hfits'
      simp only [(hget (str "studio")).getString, (hget (str "title")).getString,
        (hget (str "subtitle")).getString, (hget (str "metadataType")).getInt htype htype',
        readImages_alike (hget (str "images")) himages himages']
  | _ => cases hfits

theorem MediaInfo.create_alike {value value' : Json Bytes} (h : Alike value value')
    (hfits : MediaInfo.fits value = true) (hfits' : MediaInfo.fits value' = true) :
    MediaInfo.create value = MediaInfo.create value' := by
  cases h with
  | object hnames h =>
    have hget := Alike.get hnames h
    simp only [MediaInfo.fits, Bool.and_eq_true] at hfits hfits'
    obtain ⟨-, ⟨⟨⟨-, hduration⟩, -⟩, -⟩, hmetadata⟩ := hfits
    obtain ⟨-, ⟨⟨⟨-, hduration'⟩, -⟩, -⟩, hmetadata'⟩ := hfits'
    simp only [MediaInfo.create, incomplete_object, at?_object, Option.bind_eq_bind, Option.bind_some,
      ← Alike.lacks hnames h, (hget (str "streamType")).getString,
      (hget (str "duration")).getInt hduration hduration', (hget (str "contentType")).getString,
      (hget (str "contentId")).getString,
      Metadata.create_alike (hget (str "metadata")) hmetadata hmetadata']
  | _ => cases hfits

/-! ### What a message does -/

def PlayerCall.map {D E : Type} (f : D → E) : PlayerCall D → PlayerCall E
  | .load contentId => .load contentId
  | .play => .play
  | .pause => .pause
  | .setVolume volume => .setVolume (f volume)
  | .seek position => .seek (f position)

namespace MediaManager

def typeOf (d : Json Bytes) : Option Bytes := (memberOf d "type").getString

def doubleRead (d : Json Bytes) : Json Bytes :=
  if typeOf d = some (str "LOAD") ∨ typeOf d = some (str "SEEK") then memberOf d "currentTime"
  else if typeOf d = some (str "SET_VOLUME") then memberOf (memberOf d "volume") "level"
  else .null

section Alike
variable {D : Type} (double : ℚ → D)

/-- The double of a text, where `double` is the double of a number. -/
def asDouble (text : Bytes) : D := double (numberValue text)

def valued (s : MediaManager) : MediaManager × D :=
  ({ s with currentTime_ := [] }, asDouble double s.currentTime_)

variable (json : Rapidjson) (within : D → Bool) (s : MediaManager) (readings : Readings)

/-- Two messages make the same calls of the player and end in the same state. -/
def TreatedAlike (message message' : Bytes) : Prop :=
  ∃ calls calls' x x', s.calls json (within ∘ asDouble double) message = some calls ∧
    s.calls json (within ∘ asDouble double) message' = some calls' ∧
    s.onMessage json (within ∘ asDouble double) message readings = some x ∧
    s.onMessage json (within ∘ asDouble double) message' readings = some x' ∧
    calls.map (·.map (asDouble double)) = calls'.map (·.map (asDouble double)) ∧
    x.1.valued double = x'.1.valued double

/-- The double of a message makes no difference. -/
def Idle (d : Json Bytes) : Prop :=
  typeOf d = some (str "LOAD") ∧
    (doubleRead d).number?.map double = some (asDouble double s.currentTime_) ∨
  typeOf d = some (str "SEEK") ∧ s.mediaPlayer_ = false ∨
  typeOf d = some (str "SET_VOLUME") ∧
    (s.mediaPlayer_ = false ∨ ((doubleRead d).number?.map double).any within = false)

def effects (request : Option (Int × MediaRequest)) : List (PlayerCall D) × MediaManager × D :=
  match request with
  | some (requestId, request) =>
    (if s.mediaPlayer_ then (request.call.map (·.map (asDouble double))).toList else [],
      (s.perform readings requestId request).1.valued double)
  | none => ([], s.valued double)

variable {json within}

theorem effects_eq (double : ℚ → D) {within : D → Bool} (s : MediaManager) (readings : Readings)
    {message : Bytes} {request : Option (Int × MediaRequest)}
    (h : understand json (within ∘ asDouble double) message = some request) :
    ∃ calls x, s.calls json (within ∘ asDouble double) message = some calls ∧
      s.onMessage json (within ∘ asDouble double) message readings = some x ∧
      s.effects double readings request = (calls.map (·.map (asDouble double)), x.1.valued double) := by
  cases request with
  | none =>
    refine ⟨[], (s, []), ?_, ?_, rfl⟩
    · rw [calls, h]; rfl
    · rw [onMessage, h]; rfl
  | some request =>
    refine ⟨if s.mediaPlayer_ then request.2.call.toList else [],
      s.perform readings request.1 request.2, ?_, ?_, ?_⟩
    · rw [calls, h]; rfl
    · rw [onMessage, h]; rfl
    · rw [effects]
      split
      · rw [Option.toList_map]
      · rfl

theorem treatedAlike_iff {message message' : Bytes} :
    TreatedAlike double json within s readings message message' ↔
      ∃ request request', understand json (within ∘ asDouble double) message = some request ∧
        understand json (within ∘ asDouble double) message' = some request' ∧
        s.effects double readings request = s.effects double readings request' := by
  constructor
  · rintro ⟨calls, calls', x, x', hcalls, hcalls', hx, hx', hsame, hsame'⟩
    obtain ⟨request, hrequest, -⟩ := Option.map_eq_some_iff.mp hcalls
    obtain ⟨request', hrequest', -⟩ := Option.map_eq_some_iff.mp hcalls'
    obtain ⟨cs, y, hcs, hy, heffects⟩ := effects_eq double s readings hrequest
    obtain ⟨cs', y', hcs', hy', heffects'⟩ := effects_eq double s readings hrequest'
    obtain rfl := Option.some.inj (hcalls.symm.trans hcs)
    obtain rfl := Option.some.inj (hcalls'.symm.trans hcs')
    obtain rfl := Option.some.inj (hx.symm.trans hy)
    obtain rfl := Option.some.inj (hx'.symm.trans hy')
    exact ⟨request, request', hrequest, hrequest', by rw [heffects, heffects', hsame, hsame']⟩
  · rintro ⟨request, request', hrequest, hrequest', heffects⟩
    obtain ⟨cs, y, hcs, hy, hleft⟩ := effects_eq double s readings hrequest
    obtain ⟨cs', y', hcs', hy', hright⟩ := effects_eq double s readings hrequest'
    rw [hleft, hright, Prod.mk.injEq] at heffects
    exact ⟨cs, cs', y, y', hcs, hcs', hy, hy', heffects⟩

/-! ### The doubles -/

theorem map_doubleOf (j : Json Bytes) : (doubleOf j).map (asDouble double) =
    if j.isDouble then j.number?.map double else none := by
  cases j with
  | number text =>
    unfold doubleOf
    split <;> rfl
  | _ => rfl

theorem number?_isSome_of_isDouble {j : Json Bytes} (h : j.isDouble = true) :
    ∃ q, j.number? = some q := by
  cases j with
  | number text => exact ⟨_, rfl⟩
  | _ => cases h

/-- What is done with the double of one value and of another that is the same number: the same where
both are doubles or neither is, and where it does not matter whether there is one. -/
theorem doubles_alike {β : Type} {j j' : Json Bytes} (h : Alike j j') (f : Option D → β) {idle : Prop}
    (hidle : ∀ q, j.number? = some q → (f (some (double q)) = f none ↔ idle)) :
    f ((doubleOf j).map (asDouble double)) = f ((doubleOf j').map (asDouble double)) ↔
      j.isDouble = j'.isDouble ∨ idle := by
  rw [map_doubleOf double, map_doubleOf double, ← h.number?]
  cases hj : j.isDouble with
  | true =>
    obtain ⟨q, hq⟩ := number?_isSome_of_isDouble hj
    cases hj' : j'.isDouble with
    | true => simp
    | false => simpa [hq] using hidle q hq
  | false =>
    cases hj' : j'.isDouble with
    | true =>
      obtain ⟨q, hq⟩ := number?_isSome_of_isDouble hj'
      rw [← h.number?] at hq
      simpa [hq, eq_comm] using hidle q hq
    | false => simp

def loaded (s : MediaManager) (n : Int) (media : MediaInfo) (currentTime : Option D) :
    List (PlayerCall D) × MediaManager × D :=
  (if s.mediaPlayer_ then [.load media.contentId_] else [], ((s.doLoad media n).valued double).1,
    currentTime.getD (asDouble double s.currentTime_))

def sought (s : MediaManager) (n : Int) (position : Option D) :
    List (PlayerCall D) × MediaManager × D :=
  match position with
  | some position => (if s.mediaPlayer_ then [.seek position] else [], (s.ask n .seek).valued double)
  | none => ([], s.valued double)

def volumeSet (within : D → Bool) (s : MediaManager) (n : Int) (volume : Option D) :
    List (PlayerCall D) × MediaManager × D :=
  match volume.filter within with
  | some volume =>
    (if s.mediaPlayer_ then [.setVolume volume] else [], (s.ask n .setVolume).valued double)
  | none => ([], s.valued double)

theorem effects_load (s : MediaManager) (readings : Readings) (n : Int) (o : Option Bytes)
    (media : MediaInfo) :
    s.effects double readings (some (n, .load o media)) =
      s.loaded double n media (o.map (asDouble double)) := by
  have htime : (s.perform readings n (.load o media)).1.valued double =
      (((s.doLoad media n).valued double).1,
        (o.map (asDouble double)).getD (asDouble double s.currentTime_)) := by
    rw [perform, doLoad, doLoad, ask, ask]
    cases o <;> cases hplayer : s.mediaPlayer_ <;> simp [valued, setRequestId]
  rw [effects, htime]
  rfl

theorem effects_seek (s : MediaManager) (readings : Readings) (n : Int) (o : Option Bytes) :
    s.effects double readings (o.map fun position => (n, .seek position)) =
      s.sought double n (o.map (asDouble double)) := by
  cases o <;> rfl

theorem effects_setVolume (within : D → Bool) (s : MediaManager) (readings : Readings) (n : Int)
    (o : Option Bytes) :
    s.effects double readings
        ((o.filter (within ∘ asDouble double)).map fun volume => (n, .setVolume volume)) =
      s.volumeSet double within n (o.map (asDouble double)) := by
  cases o with
  | none => rfl
  | some volume =>
    rw [volumeSet, Option.map_some, Option.filter_some, Option.filter_some, Function.comp_apply]
    split <;> rfl

theorem loaded_some (s : MediaManager) (n : Int) (media : MediaInfo) (q : D) :
    s.loaded double n media (some q) = s.loaded double n media none ↔
      q = asDouble double s.currentTime_ := by
  simp [loaded]

theorem sought_some (s : MediaManager) (n : Int) (q : D) :
    s.sought double n (some q) = s.sought double n none ↔ s.mediaPlayer_ = false := by
  unfold sought ask
  cases s.mediaPlayer_ <;> simp

theorem volumeSet_some (within : D → Bool) (s : MediaManager) (n : Int) (q : D) :
    s.volumeSet double within n (some q) = s.volumeSet double within n none ↔
      s.mediaPlayer_ = false ∨ within q = false := by
  unfold volumeSet ask
  rw [Option.filter_some]
  cases within q <;> cases s.mediaPlayer_ <;> simp

/-! ### Requests -/

theorem memberOf_alike {d d' : Json Bytes} (h : Alike d d') (name : String) :
    Alike (memberOf d name) (memberOf d' name) := by
  cases h with
  | object hnames h => exact Alike.get hnames h (str name)
  | _ => exact .null

theorem typeOf_alike {d d' : Json Bytes} (h : Alike d d') : typeOf d = typeOf d' :=
  (memberOf_alike h "type").getString

theorem doubleRead_alike {d d' : Json Bytes} (h : Alike d d') :
    Alike (doubleRead d) (doubleRead d') := by
  unfold doubleRead
  rw [← typeOf_alike h]
  split
  · exact memberOf_alike h "currentTime"
  · split
    · exact memberOf_alike (memberOf_alike h "volume") "level"
    · exact .null

section Types
variable (within : Bytes → Bool) {members : List (Bytes × Json Bytes)}

theorem understandType_load {media : MediaInfo}
    (htype : typeOf (.object members) = some (str "LOAD"))
    (h : MediaInfo.create (get members (str "media")) = some (some media)) :
    understandType within (.object members) (str "LOAD") =
      some (some (.load (doubleOf (doubleRead (.object members))) media)) := by
  unfold understandType
  rw [if_pos rfl, doubleRead, if_pos (.inl htype), memberOf_object]
  simp only [at?_object, Option.bind_eq_bind, Option.bind_some, h]

theorem understandType_seek (htype : typeOf (.object members) = some (str "SEEK")) :
    understandType within (.object members) (str "SEEK") =
      some ((doubleOf (doubleRead (.object members))).map .seek) := by
  rw [doubleRead, if_pos (.inr htype)]
  rfl

theorem understandType_setVolume (htype : typeOf (.object members) = some (str "SET_VOLUME")) :
    understandType within (.object members) (str "SET_VOLUME") =
      some (((doubleOf (doubleRead (.object members))).filter within).map .setVolume) := by
  have hother : ¬ (typeOf (.object members) = some (str "LOAD") ∨
      typeOf (.object members) = some (str "SEEK")) := by
    rw [htype]
    decide
  unfold understandType
  rw [if_neg (by decide), if_neg (by decide), if_neg (by decide), if_pos rfl, doubleRead, if_neg hother,
    if_pos htype, memberOf_object]
  simp only [at?_object, Option.bind_eq_bind, Option.bind_some]
  cases get members (str "volume") with
  | object volume =>
    rw [memberOf_object]
    dsimp only
    cases doubleOf (get volume (str "level")) with
    | none => rfl
    | some level =>
      rw [Option.filter_some]
      by_cases hin : within level = true <;> simp [hin]
  | _ => rfl

/-- No other type reads another member. -/
theorem understandType_other (members members' : List (Bytes × Json Bytes)) {type : Bytes}
    (hload : type ≠ str "LOAD") (hseek : type ≠ str "SEEK") (hvolume : type ≠ str "SET_VOLUME") :
    understandType within (.object members) type = understandType within (.object members') type := by
  unfold understandType
  rw [if_neg hload, if_neg hload, if_neg hseek, if_neg hseek, if_neg hvolume, if_neg hvolume]

end Types

/-- A message is the request of its type, with its id. -/
theorem understand_object {message : Bytes} {members : List (Bytes × Json Bytes)} {n : Int}
    {type : Bytes} (hdocument : document json message = .object members)
    (hid : (get members (str "requestId")).getInt = some n)
    (htype : (get members (str "type")).getString = some type) (within : Bytes → Bool) :
    understand json within message = (understandType within (.object members) type).map
      fun request => request.map fun request => (n, request) := by
  have hparse : json.parse message = some (.object members) := by
    unfold document at hdocument
    cases hparse : json.parse message with
    | none => rw [hparse] at hdocument; cases hdocument
    | some d => rw [hparse, Option.getD_some] at hdocument; rw [hdocument]
  unfold understand
  rw [hparse]
  simp only [at?_object, Option.bind_eq_bind, Option.bind_some, hid, htype]
  cases understandType within (.object members) type <;> rfl

section Types
variable {s : MediaManager} {within : D → Bool} {d : Json Bytes}

theorem idle_load (h : typeOf d = some (str "LOAD")) :
    s.Idle double within d ↔
      (doubleRead d).number?.map double = some (asDouble double s.currentTime_) := by
  have hseek : str "LOAD" ≠ str "SEEK" := by decide
  have hvolume : str "LOAD" ≠ str "SET_VOLUME" := by decide
  simp [Idle, h, hseek, hvolume]

theorem idle_seek (h : typeOf d = some (str "SEEK")) :
    s.Idle double within d ↔ s.mediaPlayer_ = false := by
  have hload : str "SEEK" ≠ str "LOAD" := by decide
  have hvolume : str "SEEK" ≠ str "SET_VOLUME" := by decide
  simp [Idle, h, hload, hvolume]

theorem idle_setVolume (h : typeOf d = some (str "SET_VOLUME")) :
    s.Idle double within d ↔
      s.mediaPlayer_ = false ∨ ((doubleRead d).number?.map double).any within = false := by
  have hload : str "SET_VOLUME" ≠ str "LOAD" := by decide
  have hseek : str "SET_VOLUME" ≠ str "SEEK" := by decide
  simp only [Idle, h, Option.some_inj, hload, hseek, false_and, true_and, false_or]

end Types

/-- Two messages of a type are requests with the same effects where both take a double or neither does,
or where it makes no difference. -/
def Compared (double : ℚ → D) (within : D → Bool) (s : MediaManager) (readings : Readings) (n : Int)
    (type : Bytes) (d d' : Json Bytes) : Prop :=
  ∃ request request', understandType (within ∘ asDouble double) d type = some request ∧
    understandType (within ∘ asDouble double) d' type = some request' ∧
    (s.effects double readings (request.map fun request => (n, request)) =
        s.effects double readings (request'.map fun request => (n, request)) ↔
      (doubleRead d).isDouble = (doubleRead d').isDouble ∨ s.Idle double within d)

section Compared
variable (within : D → Bool) (s : MediaManager) (readings : Readings) (n : Int)
  {members members' : List (Bytes × Json Bytes)}

theorem compared_load (halike : Alike (.object members) (.object members'))
    (htype : typeOf (.object members) = some (str "LOAD"))
    (hfits : MediaInfo.fits (get members (str "media")) = true)
    (hfits' : MediaInfo.fits (get members' (str "media")) = true) :
    Compared double within s readings n (str "LOAD") (.object members) (.object members') := by
  have htype' := (typeOf_alike halike).symm.trans htype
  obtain ⟨media, hmedia⟩ := MediaInfo.create_of_fits hfits
  have hcreate := MediaInfo.create_alike (memberOf_alike halike "media") hfits hfits'
  have hmedia' := hcreate.symm.trans hmedia
  refine ⟨_, _, understandType_load _ htype hmedia, understandType_load _ htype' hmedia', ?_⟩
  rw [Option.map_some, Option.map_some, effects_load, effects_load, idle_load double htype]
  refine doubles_alike double (doubleRead_alike halike) (s.loaded double n media) fun q hq => ?_
  rw [loaded_some, hq, Option.map_some, Option.some_inj]

theorem compared_seek (halike : Alike (.object members) (.object members'))
    (htype : typeOf (.object members) = some (str "SEEK")) :
    Compared double within s readings n (str "SEEK") (.object members) (.object members') := by
  have htype' := (typeOf_alike halike).symm.trans htype
  have hdoubles := doubles_alike double (doubleRead_alike halike) (s.sought double n) fun q _ =>
    sought_some double s n (double q)
  refine ⟨_, _, understandType_seek _ htype, understandType_seek _ htype', ?_⟩
  rw [Option.map_map, Option.map_map, idle_seek double htype, ← hdoubles,
    ← effects_seek double s readings, ← effects_seek double s readings]
  rfl

theorem compared_setVolume (halike : Alike (.object members) (.object members'))
    (htype : typeOf (.object members) = some (str "SET_VOLUME")) :
    Compared double within s readings n (str "SET_VOLUME") (.object members) (.object members') := by
  have htype' := (typeOf_alike halike).symm.trans htype
  have hidle (q : ℚ) (hq : (doubleRead (.object members)).number? = some q) :
      s.volumeSet double within n (some (double q)) = s.volumeSet double within n none ↔
        s.mediaPlayer_ = false ∨
          ((doubleRead (.object members)).number?.map double).any within = false := by
    rw [volumeSet_some, hq, Option.map_some, Option.any_some]
  have hdoubles :=
    doubles_alike double (doubleRead_alike halike) (s.volumeSet double within n) hidle
  refine ⟨_, _, understandType_setVolume _ htype, understandType_setVolume _ htype', ?_⟩
  rw [Option.map_map, Option.map_map, idle_setVolume double htype, ← hdoubles,
    ← effects_setVolume double within s readings, ← effects_setVolume double within s readings]
  rfl

theorem compared_other {type : Bytes} (halike : Alike (.object members) (.object members'))
    (htype : typeOf (.object members) = some type) (hload : type ≠ str "LOAD")
    (hseek : type ≠ str "SEEK") (hvolume : type ≠ str "SET_VOLUME") :
    Compared double within s readings n type (.object members) (.object members') := by
  have hnull (d : Json Bytes) (h : typeOf d = some type) : doubleRead d = .null := by
    simp [doubleRead, h, hload, hseek, hvolume]
  have hsome : (understandType (within ∘ asDouble double) (.object members) type).isSome = true := by
    rw [understandType_isSome, bne_iff_ne.mpr hload, Bool.true_or]
  obtain ⟨request, hrequest⟩ := Option.isSome_iff_exists.mp hsome
  refine ⟨request, request, hrequest, ?_, ?_⟩
  · rw [← hrequest]
    exact understandType_other _ members' members hload hseek hvolume
  · rw [hnull _ htype, hnull _ ((typeOf_alike halike).symm.trans htype)]
    exact iff_of_true rfl (.inl rfl)

/-- Messages that fit are compared by their type. -/
theorem compared {type : Bytes} (halike : Alike (.object members) (.object members'))
    (htype : typeOf (.object members) = some type)
    (hfits : type = str "LOAD" → MediaInfo.fits (get members (str "media")) = true)
    (hfits' : type = str "LOAD" → MediaInfo.fits (get members' (str "media")) = true) :
    Compared double within s readings n type (.object members) (.object members') := by
  by_cases hload : type = str "LOAD"
  · subst hload
    exact compared_load double within s readings n halike htype (hfits rfl) (hfits' rfl)
  by_cases hseek : type = str "SEEK"
  · subst hseek
    exact compared_seek double within s readings n halike htype
  by_cases hvolume : type = str "SET_VOLUME"
  · subst hvolume
    exact compared_setVolume double within s readings n halike htype
  · exact compared_other double within s readings n halike htype hload hseek hvolume

end Compared

theorem fits_object {d : Json Bytes} (h : fits d = true) : ∃ members n type, d = .object members ∧
    (get members (str "requestId")).getInt = some n ∧
    (get members (str "type")).getString = some type ∧
    (type = str "LOAD" → MediaInfo.fits (get members (str "media")) = true) := by
  cases d with
  | object members =>
    rw [fits, Bool.and_eq_true, Bool.and_eq_true, Bool.or_eq_true, bne_iff_ne] at h
    obtain ⟨⟨hid, htype⟩, hmedia⟩ := h
    obtain ⟨n, hn⟩ := Option.isSome_iff_exists.mp hid
    obtain ⟨type, htype⟩ := Option.isSome_iff_exists.mp htype
    refine ⟨members, n, type, rfl, hn, htype, fun hload => hmedia.resolve_left fun hne => hne ?_⟩
    rw [htype, hload]
  | _ => cases h

/-- Of messages that differ in how a number is written only, those are treated alike that are null, and
those of which each integer is written as one in both, and the double in both or in neither unless it
makes no difference; and no others. -/
theorem treated_alike_iff (json : Rapidjson) (within : D → Bool) (s : MediaManager)
    (readings : Readings) {message message' : Bytes}
    (h : Alike (document json message) (document json message')) :
    TreatedAlike double json within s readings message message' ↔
      (document json message).isNull = true ∨
      fits (document json message) = true ∧ fits (document json message') = true ∧
        ((doubleRead (document json message)).isDouble =
            (doubleRead (document json message')).isDouble ∨
          s.Idle double within (document json message)) := by
  rw [treatedAlike_iff]
  have hsome (message : Bytes) := understand_isSome json (within ∘ asDouble double) message
  by_cases hnull : (document json message).isNull = true
  · have hnull' : (document json message').isNull = true := h.isNull.symm.trans hnull
    exact iff_of_true ⟨none, none, understand_null json _ hnull, understand_null json _ hnull', rfl⟩
      (.inl hnull)
  have hnull' : ¬ (document json message').isNull = true := h.isNull ▸ hnull
  rw [or_iff_right hnull]
  by_cases hfits : fits (document json message) = true ∧ fits (document json message') = true
  · rw [← and_assoc, and_iff_right hfits]
    obtain ⟨members, n, type, hd, hid, htype, hload⟩ := fits_object hfits.1
    obtain ⟨members', n', type', hd', hid', htype', hload'⟩ := fits_object hfits.2
    rw [hd, hd'] at h ⊢
    have hids := (memberOf_alike h "requestId").getInt (Option.isSome_of_eq_some hid)
      (Option.isSome_of_eq_some hid')
    obtain rfl := Option.some.inj (hid.symm.trans (hids.trans hid'))
    obtain rfl := Option.some.inj (htype.symm.trans ((typeOf_alike h).trans htype'))
    obtain ⟨request, request', hrequest, hrequest', heffects⟩ :=
      compared double within s readings n h htype hload hload'
    rw [← heffects, understand_object hd hid htype, understand_object hd' hid' htype', hrequest,
      hrequest']
    constructor
    · rintro ⟨_, _, hleft, hright, hsame⟩
      obtain rfl := Option.some.inj hleft
      obtain rfl := Option.some.inj hright
      exact hsame
    · exact fun hsame => ⟨_, _, rfl, rfl, hsame⟩
  · refine iff_of_false ?_ fun hall => hfits ⟨hall.1, hall.2.1⟩
    rintro ⟨request, request', hrequest, hrequest', -⟩
    have hleft := hsome message
    have hright := hsome message'
    rw [hrequest, Option.isSome_some, eq_comm, Bool.or_eq_true, or_iff_right hnull] at hleft
    rw [hrequest', Option.isSome_some, eq_comm, Bool.or_eq_true, or_iff_right hnull'] at hright
    exact hfits ⟨hleft, hright⟩

end Alike

def seekTo (position : String) : Json Bytes :=
  .object [(str "requestId", .number (str "1")), (str "type", .text (str "SEEK")),
    (str "currentTime", .number (str position))]

def playing : MediaManager := (new Exchange.stale).setMediaPlayer true

theorem seekTo_alike {position position' : String}
    (h : numberValue (str position) = numberValue (str position')) :
    Alike (seekTo position) (seekTo position') :=
  .object rfl (.cons (.number rfl) (.cons (.string _) (.cons (.number h) .nil)))

theorem document_seekTo (position : String) (h : isNumber ((str position).map CodeUnit.code) = true)
    (hall : ((str position).all fun a => isNumberCode (CodeUnit.code a)) = true) :
    document .compact (Json.write (seekTo position)) = seekTo position := by
  have hplain : Plain (seekTo position) :=
    plain_cons (by decide) (.number rfl (List.all_eq_true.mp rfl)) <|
      plain_cons (by decide) (plain_text _) <|
        plain_cons (by decide) (.number h (List.all_eq_true.mp hall)) plain_nil
  have hread : Rapidjson.compact.parse (Json.write (seekTo position)) = some (seekTo position) :=
    Rapidjson.undoes_compact _ hplain
  rw [document, hread, Option.getD_some]

/-- Ten seconds are sought where they are written with a fraction, and not where without. -/
theorem whole_seconds_not_sought :
    Alike (document .compact (Json.write (seekTo "10")))
        (document .compact (Json.write (seekTo "10.0"))) ∧
      ¬ TreatedAlike id .compact (fun _ => true) playing Exchange.silent (Json.write (seekTo "10"))
        (Json.write (seekTo "10.0")) := by
  constructor
  · rw [document_seekTo _ rfl rfl, document_seekTo _ rfl rfl]
    exact seekTo_alike (by decide +kernel)
  · rintro ⟨calls, calls', -, -, hcalls, hcalls', -, -, hsame, -⟩
    have hwhole : playing.calls .compact ((fun _ => true) ∘ asDouble id) (Json.write (seekTo "10")) =
        some [] := by decide +kernel
    have hfraction : playing.calls .compact ((fun _ => true) ∘ asDouble id)
        (Json.write (seekTo "10.0")) = some [.seek (str "10.0")] := by decide +kernel
    obtain rfl := Option.some.inj (hwhole.symm.trans hcalls)
    obtain rfl := Option.some.inj (hfraction.symm.trans hcalls')
    cases hsame

/-- They are sought alike with an exponent. -/
theorem treated_alike_exponent :
    TreatedAlike id .compact (fun _ => true) playing Exchange.silent (Json.write (seekTo "10.0"))
      (Json.write (seekTo "1e1")) := by
  have hdocument := document_seekTo "10.0" rfl rfl
  have hdocument' := document_seekTo "1e1" rfl rfl
  refine (treated_alike_iff id .compact (fun _ => true) playing Exchange.silent ?_).mpr
    (.inr ⟨?_, ?_, .inl ?_⟩)
  · rw [hdocument, hdocument']
    exact seekTo_alike (by decide +kernel)
  · rw [hdocument]
    rfl
  · rw [hdocument']
    rfl
  · rw [hdocument, hdocument']
    rfl

end MediaManager
end Sdk
end Flingd
