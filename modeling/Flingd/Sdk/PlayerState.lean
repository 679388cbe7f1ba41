import Flingd.Sdk.MediaAnswers

/-! The state of playback that statuses report. A seek and a change of the volume
report a state of their own, whatever the player has told before. -/
namespace Flingd.Sdk
open Json

namespace MediaManager

def Event.establishes : Event → Option Bytes
  | .onLoaded => some (str "PLAYING")
  | .onPlaying => some (str "PLAYING")
  | .onBuffering => some (str "BUFFERING")
  | .onPaused => some (str "PAUSED")
  | .onIdle => some (str "IDLE")
  | .onEnded => some (str "IDLE")
  | .onError => some (str "IDLE")
  | _ => none

/-- What a callback about something else than playback reports all the same. -/
def Event.claims : Event → Option Bytes
  | .onSeeked => some (str "PLAYING")
  | .onVolumeChanged _ => some (str "PAUSED")
  | _ => none

def Event.player (now : Bool) : Event → Bool
  | .setMediaPlayer mediaPlayer => mediaPlayer
  | _ => now

/-- Whether there is a player, and the state that its last callback about playback has established. -/
structure Past where
  player : Bool
  established : Bytes

/-- Without a player a callback is dropped. -/
def Past.after (p : Past) : Event → Past
  | .setMediaPlayer mediaPlayer => { p with player := mediaPlayer }
  | e => if p.player then { p with established := e.establishes.getD p.established } else p

def past (es : List Event) : Past := es.foldl Past.after ⟨false, str "IDLE"⟩

section Runs
variable (json : Rapidjson) (within : Bytes → Bool)

/-- The manager after a number of events, each with what the player says then. -/
def run (s : MediaManager) (es : List (Event × Readings)) : Option MediaManager :=
  es.foldlM (fun s e => (s.step json within e.1 e.2).map (·.1)) s

end Runs

variable {json : Rapidjson} {within : Bytes → Bool} {s : MediaManager} {readings : Readings}

theorem postPlayerStatus_player (s : MediaManager) (readings : Readings) (n : Int) (status : Bytes) :
    (s.postPlayerStatus readings n status).1.mediaPlayer_ = s.mediaPlayer_ := by
  unfold postPlayerStatus
  split <;> rfl

theorem setRequestId_player (s : MediaManager) (n : Int) (k : Kind) :
    (s.setRequestId n k).mediaPlayer_ = s.mediaPlayer_ := by
  cases k <;> rfl

theorem ask_player (s : MediaManager) (n : Int) (k : Kind) :
    (s.ask n k).mediaPlayer_ = s.mediaPlayer_ := by
  unfold ask
  split
  · exact setRequestId_player s n k
  · rfl

theorem answer_player (s : MediaManager) (k : Kind) (status : String) (readings : Readings) :
    (s.answer k status readings).1.mediaPlayer_ = s.mediaPlayer_ :=
  (setRequestId_player _ 0 k).trans (postPlayerStatus_player s readings _ _)

theorem perform_player (s : MediaManager) (readings : Readings) (n : Int) (request : MediaRequest) :
    (s.perform readings n request).1.mediaPlayer_ = s.mediaPlayer_ := by
  cases request with
  | getStatus => exact postPlayerStatus_player s readings n []
  | _ => exact ask_player _ _ _

/-- Only `setMediaPlayer` sets the player. -/
theorem step_player {e : Event} {x : MediaManager × List Status}
    (h : s.step json within e readings = some x) :
    x.1.mediaPlayer_ = e.player s.mediaPlayer_ := by
  cases e with
  | onMessage message =>
    obtain ⟨request, -, h⟩ := Option.bind_eq_some_iff.mp h
    cases request with
    | none =>
      obtain rfl := Option.some.inj h
      rfl
    | some request =>
      obtain rfl := Option.some.inj h
      exact perform_player s readings request.1 request.2
  | setMediaPlayer mediaPlayer =>
    obtain rfl := Option.some.inj h
    rfl
  | _ =>
    obtain rfl := Option.some.inj h
    first
      | exact answer_player _ _ _ _
      | exact postPlayerStatus_player _ _ _ _

theorem past_append (es : List Event) (e : Event) : past (es ++ [e]) = (past es).after e := by
  rw [past, List.foldl_append]
  rfl

/-- There is a player where the past says so. -/
theorem run_player {memory : MediaManager} (es : List (Event × Readings)) {s : MediaManager}
    (h : run json within (new memory) es = some s) :
    s.mediaPlayer_ = (past (es.map (·.1))).player := by
  induction es using List.reverseRecOn generalizing s with
  | nil =>
    obtain rfl := Option.some.inj h
    rfl
  | append_singleton es e ih =>
    rw [run, List.foldlM_append] at h
    obtain ⟨t, ht, h⟩ := Option.bind_eq_some_iff.mp h
    simp only [List.foldlM_cons, List.foldlM_nil, bind_pure, Option.map_eq_some_iff] at h
    obtain ⟨x, hx, rfl⟩ := h
    rw [step_player hx, ih ht, List.map_append, List.map_singleton, past_append]
    cases e.1 with
    | setMediaPlayer mediaPlayer => rfl
    | _ =>
      simp only [Past.after]
      split <;> rfl

/-! ### What is reported -/

theorem postPlayerStatus_reports (s : MediaManager) (readings : Readings) (n : Int) {status : Bytes}
    (h : status ≠ []) : (s.postPlayerStatus readings n status).2.map (·.playerState) =
      if s.mediaPlayer_ then [status] else [] := by
  unfold postPlayerStatus
  split
  · simp only [List.map_singleton]
  · simp only [List.map_nil]

/-- A callback reports one state, the same at all times. -/
theorem step_reports {e : Event} {x : MediaManager × List Status}
    (h : s.step json within e readings = some x) {state : Bytes}
    (he : e.establishes = some state ∨ e.claims = some state) :
    x.2.map (·.playerState) = if s.mediaPlayer_ then [state] else [] := by
  cases e with
  | onMessage message => simp [Event.establishes, Event.claims] at he
  | setMediaPlayer mediaPlayer => simp [Event.establishes, Event.claims] at he
  | _ =>
    obtain rfl := Option.some.inj h
    obtain rfl : _ = state := by simpa [Event.establishes, Event.claims] using he
    exact postPlayerStatus_reports s readings _ (by decide)

theorem step_claims (json : Rapidjson) (within : Bytes → Bool) (s : MediaManager)
    (readings : Readings) {e : Event} {state : Bytes} (he : e.claims = some state) :
    ∃ x, s.step json within e readings = some x := by
  cases e <;> first | exact ⟨_, rfl⟩ | cases he

/-- A status of a callback about playback reports its state; and those of seeks and of changes of the
volume report what the last such callback has established in all runs in which a seek ends only while
that is that it plays and the volume changes only while it is that it pauses, and in no others. -/
theorem playerState_follows_iff (json : Rapidjson) (within : Bytes → Bool) (memory : MediaManager)
    (es : List (Event × Readings)) :
    (∀ before e after s x state, es = before ++ e :: after →
      run json within (new memory) before = some s → s.step json within e.1 e.2 = some x →
      e.1.establishes = some state → ∀ p ∈ x.2, p.playerState = state) ∧
    ((∀ before e after s x, es = before ++ e :: after →
        run json within (new memory) before = some s → s.step json within e.1 e.2 = some x →
        e.1.claims.isSome = true →
        ∀ p ∈ x.2, p.playerState = (past (before.map (·.1))).established) ↔
      ∀ before e after s, es = before ++ e :: after →
        run json within (new memory) before = some s → (past (before.map (·.1))).player = true →
        ∀ state, e.1.claims = some state → (past (before.map (·.1))).established = state) := by
  constructor
  · intro before e after s x state _ _ hx he p hp
    have hin := List.mem_map_of_mem (f := Status.playerState) hp
    rw [step_reports hx (.inl he)] at hin
    split at hin
    · exact List.mem_singleton.mp hin
    · cases hin
  constructor
  · intro h before e after s hes hs hplayer state hstate
    obtain ⟨x, hx⟩ := step_claims json within s e.2 hstate
    have hreports := step_reports hx (.inr hstate)
    rw [run_player before hs, if_pos hplayer] at hreports
    obtain ⟨p, hp, hstate'⟩ := List.map_eq_singleton_iff.mp hreports
    have hclaims : e.1.claims.isSome = true := by rw [hstate]; rfl
    rw [← hstate', h before e after s x hes hs hx hclaims p (hp ▸ List.mem_singleton_self p)]
  · intro h before e after s x hes hs hx hclaims p hp
    obtain ⟨state, hstate⟩ := Option.isSome_iff_exists.mp hclaims
    have hin := List.mem_map_of_mem (f := Status.playerState) hp
    rw [step_reports hx (.inr hstate), run_player before hs] at hin
    split at hin
    · next hplayer =>
      rw [h before e after s hes hs hplayer state hstate]
      exact List.mem_singleton.mp hin
    · cases hin

/-- A player that has paused plays after a seek, and one that plays has paused after a change of
the volume. -/
theorem seek_and_volume_tell :
    (∃ s x, run .compact (fun _ => true) (new Exchange.stale)
        ([.setMediaPlayer true, .onPaused].map fun e => (e, Exchange.silent)) = some s ∧
      s.step .compact (fun _ => true) .onSeeked Exchange.silent = some x ∧
      x.2.map (·.playerState) = [str "PLAYING"] ∧
      (past [.setMediaPlayer true, .onPaused]).established = str "PAUSED") ∧
    ∃ s x, run .compact (fun _ => true) (new Exchange.stale)
        ([.setMediaPlayer true, .onPlaying].map fun e => (e, Exchange.silent)) = some s ∧
      s.step .compact (fun _ => true) (.onVolumeChanged (str "0.5")) Exchange.silent = some x ∧
      x.2.map (·.playerState) = [str "PAUSED"] ∧
      (past [.setMediaPlayer true, .onPlaying]).established = str "PLAYING" :=
  ⟨⟨_, _, rfl, rfl, rfl, rfl⟩, _, _, rfl, rfl, rfl, rfl⟩

end MediaManager
end Flingd.Sdk
