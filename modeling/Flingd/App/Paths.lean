import Flingd.App.FlintServer
import Flingd.Base.Erased

/-! The paths on which an application is asked for: that of its resource, that of its running
instance and that of the websocket of its receiver. -/
namespace Flingd.App
open Outcome

/-- The id that `FlintServer::onWebsocketConnection` makes of a path, if the path is one of
receivers. -/
def receiverAppId (path : Bytes) : Option Bytes :=
  if str "/receiver/~" <+: path then some (ieraseAll path (str "/receiver/")) else none

def resourcePath (appId : Bytes) : Bytes := str "/apps/" ++ appId

def instancePath (appId : Bytes) : Bytes := str "/apps/" ++ (appId ++ str "/run")

def receiverPath (appId : Bytes) : Bytes := str "/receiver/" ++ appId

def Daemon.attend (json : Rapidjson) (s : Daemon) (uuid : Bytes) (r : HttpRequest) (appId : Bytes)
    (isInstance : Bool) : Except Fault (Daemon × Reply) :=
  match r.methodOf with
  | .get => s.onGet appId r.authorization
  | .post => s.onPostText json appId r.authorization uuid r.body
  | .delete => s.onDelete appId r.authorization isInstance
  | .options => .ok (s, .status 200)
  | .other => .ok (s, .status 400)

def Daemon.called (x : Except Fault (Daemon × Reply)) : Except Fault (Daemon × List Action) := do
  let (s, reply) ← x
  .ok (s, reply.actions)

/-- The paths of the application lead to it and to its instance, whatever is asked for. -/
structure Reachable (appId : Bytes) : Prop where
  resource : ∀ json device (s : Daemon) uuid r, r.path = resourcePath appId →
    s.onHttpRequest json device uuid r = Daemon.called (s.attend json uuid r appId false)
  instances : ∀ json device (s : Daemon) uuid r, r.path = instancePath appId →
    s.onHttpRequest json device uuid r = Daemon.called (s.attend json uuid r appId true)
  receiver : receiverAppId (receiverPath appId) = some appId

/-- Nothing in the id is taken for a part of a path. -/
structure Unmistakable (appId : Bytes) : Prop where
  apps : ¬ IOccurs (str "/apps/") (appId ++ str "/run")
  run : ¬ IOccurs (str "/run") appId
  receiver : ¬ IOccurs (str "/receiver/") appId

/-! ### What is made of the paths -/

section
variable {appId : Bytes}

theorem apps_ne_nil : str "/apps/" ≠ [] := by decide

theorem run_ne_nil : str "/run" ≠ [] := by decide

theorem parseAppId_resource : parseAppId (resourcePath appId) = appId ↔
    ¬ IOccurs (str "/apps/") appId ∧ ¬ IOccurs (str "/run") appId := by
  rw [parseAppId, resourcePath, ieraseAll_append apps_ne_nil (iequals_refl _)]
  constructor
  · intro h
    have happs : ieraseAll appId (str "/apps/") = appId := by
      refine ieraseAll_eq_self_of_length ?_
      exact (congrArg List.length h).symm.le.trans (ieraseAll_sublist _ _).length_le
    rw [happs] at h
    exact ⟨(ieraseAll_eq_self_iff apps_ne_nil).mp happs, (ieraseAll_eq_self_iff run_ne_nil).mp h⟩
  · rintro ⟨happs, hrun⟩
    rw [(ieraseAll_eq_self_iff apps_ne_nil).mpr happs, (ieraseAll_eq_self_iff run_ne_nil).mpr hrun]

theorem parseAppId_instance : parseAppId (instancePath appId) = appId ↔
    ¬ IOccurs (str "/apps/") (appId ++ str "/run") ∧ ¬ IOccurs (str "/run") appId := by
  have hrunOnce : ieraseAll (appId ++ str "/run") (str "/run") = ieraseAll appId (str "/run") :=
    ieraseAll_append_word (c := 47) rfl (by decide +kernel) appId
  rw [parseAppId, instancePath, ieraseAll_append apps_ne_nil (iequals_refl _)]
  constructor
  · intro h
    have happs : ¬ IOccurs (str "/apps/") (appId ++ str "/run") := by
      intro hin
      have hless := length_ieraseAll_of_iOccurs apps_ne_nil hin
      have hle := (ieraseAll_sublist (ieraseAll (appId ++ str "/run") (str "/apps/"))
        (str "/run")).length_le
      rw [h] at hle
      rw [List.length_append] at hless
      have happsLen : (str "/apps/").length = 6 := rfl
      have hrunLen : (str "/run").length = 4 := rfl
      omega
    rw [(ieraseAll_eq_self_iff apps_ne_nil).mpr happs, hrunOnce] at h
    exact ⟨happs, (ieraseAll_eq_self_iff run_ne_nil).mp h⟩
  · rintro ⟨happs, hrun⟩
    rw [(ieraseAll_eq_self_iff apps_ne_nil).mpr happs, hrunOnce,
      (ieraseAll_eq_self_iff run_ne_nil).mpr hrun]

theorem isRunningInstance_resource (hne : appId ≠ []) (h : ¬ IOccurs (str "/apps/") appId) :
    isRunningInstance (resourcePath appId) appId = false := by
  have hself : ieraseAll appId appId = [] := by
    have hall := ieraseAll_append (t := []) hne (iequals_refl appId)
    rwa [List.append_nil, ieraseAll_eq hne [], ieraseFrom] at hall
  rw [isRunningInstance, resourcePath, ieraseAll_append apps_ne_nil (iequals_refl _),
    (ieraseAll_eq_self_iff apps_ne_nil).mpr h, hself]
  rfl

/-- The word at the end of the path has no `~` for an id to begin with. -/
theorem isRunningInstance_instance (htilde : appId.head? = some 126)
    (h : ¬ IOccurs (str "/apps/") (appId ++ str "/run")) :
    isRunningInstance (instancePath appId) appId = true := by
  have hne : appId ≠ [] := by
    rintro rfl
    cases htilde
  have hout : ¬ IOccurs appId (str "/run") := by
    rintro ⟨w, hw, heq⟩
    obtain ⟨id, rfl⟩ := List.head?_eq_some_iff.mp htilde
    cases w with
    | nil => exact absurd (length_of_iequals heq) (by simp)
    | cons c w =>
      have hc : toUpper c = 126 := (List.cons.inj (iequals_iff.mp heq)).1
      have hin : c ∈ str "/run" := hw.subset List.mem_cons_self
      have hall : ∀ c ∈ str "/run", toUpper c ≠ 126 := forall_of_all (by decide)
      exact hall c hin hc
  have hrest : ieraseAll (str "/run") appId = str "/run" := (ieraseAll_eq_self_iff hne).mpr hout
  rw [isRunningInstance, instancePath, ieraseAll_append apps_ne_nil (iequals_refl _),
    (ieraseAll_eq_self_iff apps_ne_nil).mpr h, ieraseAll_append hne (iequals_refl _), hrest]
  exact decide_eq_true rfl

theorem receiverAppId_path (htilde : appId.head? = some 126) :
    receiverAppId (receiverPath appId) = some appId ↔ ¬ IOccurs (str "/receiver/") appId := by
  have hword : str "/receiver/" ≠ [] := by decide
  obtain ⟨id, rfl⟩ := List.head?_eq_some_iff.mp htilde
  have hpath : str "/receiver/~" <+: receiverPath (126 :: id) := ⟨id, rfl⟩
  rw [receiverAppId, if_pos hpath, receiverPath, ieraseAll_append hword (iequals_refl _),
    Option.some.injEq, ieraseAll_eq_self_iff hword]

/-! ### Where they lead -/

theorem handlerOf_apps (rest : Bytes) :
    handlerOf (str "/apps/" ++ 126 :: rest) = some .applicationControl := by
  have hsecond {c : UInt8} {more : Bytes} (hc : toUpper 97 ≠ toUpper c) :
      iequals (str "/apps/" ++ 126 :: rest) (47 :: c :: more) = false :=
    Bool.eq_false_iff.mpr fun h => hc (List.cons.inj (List.cons.inj (iequals_iff.mp h)).2).1
  have hicon : iequals (str "/apps/" ++ 126 :: rest) (str "/setup/icon.png") = false :=
    hsecond (by decide)
  have hdesc : iequals (str "/apps/" ++ 126 :: rest) (str "/ssdp/device-desc.xml") = false :=
    hsecond (by decide)
  have hsystem {word : Bytes} {more : Bytes} (hword : word = 47 :: 115 :: more) :
      istartsWith (str "/apps/" ++ 126 :: rest) word = false := by
    rw [Bool.eq_false_iff]
    intro h
    obtain ⟨w, hw, heq⟩ := istartsWith_iff.mp h
    obtain ⟨t, ht⟩ := hw
    rw [hword] at heq
    match w with
    | [] => exact absurd (length_of_iequals heq) (by simp)
    | [_] => exact absurd (length_of_iequals heq) (by simp)
    | c :: d :: w =>
      have hd : toUpper d = toUpper 115 :=
        (List.cons.inj (List.cons.inj (iequals_iff.mp heq)).2).1
      have hd' : d = 97 := (List.cons.inj (List.cons.inj ht).2).1
      rw [hd'] at hd
      exact absurd hd (by decide)
  have happs : istartsWith (str "/apps/" ++ 126 :: rest) (str "/apps/~") = true :=
    istartsWith_append (w := str "/apps/~") (iequals_refl _) rest
  have hcontrol : istartsWith (str "/apps/" ++ 126 :: rest) (str "/system/control") = false :=
    hsystem rfl
  have hbelow : istartsWith (str "/apps/" ++ 126 :: rest) (str "/system/control/") = false :=
    hsystem rfl
  rw [handlerOf, hicon, hdesc, hcontrol, hbelow, happs]
  rfl

theorem Daemon.onHttpRequest_apps {json : Rapidjson} {device : Device} {s : Daemon}
    {uuid rest : Bytes} {r : HttpRequest} (hpath : r.path = str "/apps/" ++ 126 :: rest) :
    s.onHttpRequest json device uuid r =
      if parseAppId r.path ≠ [] ∧ istartsWith (parseAppId r.path) (str "~") then
        called (s.attend json uuid r (parseAppId r.path)
          (isRunningInstance r.path (parseAppId r.path)))
      else .ok (s, (Reply.status 404).actions) := by
  unfold onHttpRequest
  rw [hpath, handlerOf_apps, ← hpath]
  dsimp only
  unfold applicationControlHandler attend
  dsimp only
  split
  · rfl
  · rfl

/-- A GET of a daemon that has just started is answered with the id that was understood. -/
theorem parseAppId_of_serves {path rest : Bytes} {isInstance : Bool}
    (hpath : path = str "/apps/" ++ 126 :: rest)
    (h : ∀ json device (s : Daemon) uuid r, r.path = path →
      s.onHttpRequest json device uuid r = Daemon.called (s.attend json uuid r appId isInstance)) :
    parseAppId path = appId := by
  have hget := h .compact ⟨[], [], [], [], false⟩ Daemon.start [] ⟨path, str "GET", [], [], []⟩ rfl
  have hdocument (id : Bytes) (isInstance : Bool) :
      Daemon.called (Daemon.start.attend .compact [] ⟨path, str "GET", [], [], []⟩ id isInstance) =
        .ok (Daemon.start, (Reply.document id .stopped none).actions) := rfl
  rw [Daemon.onHttpRequest_apps hpath, hdocument, hdocument] at hget
  split at hget
  · simpa [Reply.actions] using hget
  · simp [Reply.actions] at hget

theorem reachable_of_unmistakable (htilde : appId.head? = some 126) (h : Unmistakable appId) :
    Reachable appId := by
  obtain ⟨id, hid⟩ := List.head?_eq_some_iff.mp htilde
  have hne : appId ≠ [] := by simp [hid]
  have hstarts : istartsWith appId (str "~") = true := by
    rw [hid]
    exact istartsWith_append (w := str "~") (iequals_refl _) id
  have hresource : resourcePath appId = str "/apps/" ++ 126 :: id := by rw [resourcePath, hid]
  have hinstance : instancePath appId = str "/apps/" ++ 126 :: (id ++ str "/run") := by
    rw [instancePath, hid, List.cons_append]
  have happs : ¬ IOccurs (str "/apps/") appId := fun hin =>
    h.apps (hin.mono (List.prefix_append appId _).isInfix)
  refine ⟨fun json device s uuid r hpath => ?_, fun json device s uuid r hpath => ?_,
    (receiverAppId_path htilde).mpr h.receiver⟩
  · rw [Daemon.onHttpRequest_apps (hpath.trans hresource), hpath,
      parseAppId_resource.mpr ⟨happs, h.run⟩, if_pos ⟨hne, hstarts⟩,
      isRunningInstance_resource hne happs]
  · rw [Daemon.onHttpRequest_apps (hpath.trans hinstance), hpath,
      parseAppId_instance.mpr ⟨h.apps, h.run⟩, if_pos ⟨hne, hstarts⟩,
      isRunningInstance_instance htilde h.apps]

/-- An application whose id begins with `~` is reached on all of its paths just where nothing in the
id is taken for a part of them. -/
theorem paths_lead_iff (htilde : appId.head? = some 126) :
    Reachable appId ↔ Unmistakable appId := by
  refine ⟨fun h => ?_, reachable_of_unmistakable htilde⟩
  obtain ⟨id, hid⟩ := List.head?_eq_some_iff.mp htilde
  have hinstance : instancePath appId = str "/apps/" ++ 126 :: (id ++ str "/run") := by
    rw [instancePath, hid, List.cons_append]
  have hparse := parseAppId_instance.mp (parseAppId_of_serves hinstance h.instances)
  exact ⟨hparse.1, hparse.2, (receiverAppId_path htilde).mp h.receiver⟩

theorem paths_lead_iff_browser :
    Reachable (str "~browser") ↔ Unmistakable (str "~browser") := paths_lead_iff rfl

/-- A path may be taken apart where the id and the word behind it meet. -/
example : parseAppId (instancePath (str "~x/apps")) = str "~xrun" := by decide +kernel

end

end Flingd.App
