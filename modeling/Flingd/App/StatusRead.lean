import Flingd.App.Accessors
import Flingd.App.StatusDocument

/-! What is read back from a status document was plain: markup in the id or in the data takes text
away from what follows it, and that is never made up for. -/
namespace Flingd.App
open Outcome Xml
variable {id t u w : Text} {appState : AppState} {ms : List (Text × Text)} {es : List Event}

/-! ### The element `name` -/

theorem name_read
    (h : Lexes (lineEnds id ++ (middle appState ++ w))
      (id.map .char ++ .stop "name".toList :: es) u) :
    ∃ t, Lexes t es u ∧
      (t = between appState ++ w ∧ lineEnds id = id ∧ Literal id ∨ t <:+ w) := by
  rw [middle_eq, List.append_assoc] at h
  obtain ⟨p, t, hs, hclosed, ht⟩ := h.closed
  refine ⟨t, ht, ?_⟩
  have hlong := hclosed.long
  have hshrink := lineEnds_length id
  have hlength := congrArg List.length hs
  have hend : ("</name>".toList).length = 7 := rfl
  have hname : ("name".toList).length = 4 := rfl
  simp only [List.length_append] at hlength
  have hpt : t <:+ between appState ++ w := by
    refine suffix_of_length (x := p ++ t) (List.suffix_append p t) ?_ ?_
    · rw [← hs]
      exact ⟨lineEnds id ++ "</name>".toList, List.append_assoc _ _ _⟩
    · rw [List.length_append]
      omega
  rcases Nat.lt_or_ge w.length t.length with hlt | hle
  · obtain ⟨y, hy⟩ := hpt
    have hp : p = lineEnds id ++ ("</name>".toList ++ y) := by
      have heq : p ++ t = (lineEnds id ++ ("</name>".toList ++ y)) ++ t := by
        rw [← hs, ← hy]
        simp only [List.append_assoc]
      exact List.append_cancel_right heq
    cases y with
    | nil =>
      rw [List.append_nil] at hp
      have hlen := congrArg List.length hp
      rw [List.length_append] at hlen
      obtain ⟨hp', hliteral⟩ := hclosed.tight (by omega)
      have hid : id = lineEnds id := by
        rw [hp] at hp'
        exact (List.append_cancel_right hp').symm
      exact .inl ⟨hy, hid.symm, hliteral⟩
    | cons c y =>
      obtain ⟨q, space, hq, hspace⟩ := hclosed.tag
      have hprefix : c :: y <+: between appState := by
        refine List.prefix_of_prefix_length_le (List.prefix_append _ t)
          (hy ▸ List.prefix_append _ w) ?_
        have := congrArg List.length hy
        simp only [List.length_append] at this
        omega
      have htag : (lineEnds id ++ "</name>".toList) ++ (c :: y) =
          q ++ ("</name".toList ++ (space ++ ['>'])) := by
        rw [List.append_assoc, ← hp, hq]
        rfl
      exact (between_no_tag hprefix (List.cons_ne_nil c y) hspace htag).elim
  · exact .inr (suffix_of_length hpt (List.suffix_append _ _) hle)

/-! ### The element `additionalData` -/

/-- The end tag of the additional data is where it was written. -/
theorem closing_read (ht : t <:+ closing) (h : Lexes t (.stop "additionalData".toList :: es) u) :
    t = closing := by
  obtain ⟨p, t', rfl, hclosed, -⟩ := Lexes.closed (v := []) h
  obtain ⟨q, space, rfl, -⟩ := hclosed.tag
  have hshape : '<' :: '/' :: ("additionalData".toList ++ (space ++ ['>'])) ++ t' =
      "</a".toList ++ ("dditionalData".toList ++ (space ++ '>' :: t')) := by
    simp only [List.cons_append, List.append_assoc, List.nil_append]
    rfl
  rw [List.append_assoc, hshape] at ht ⊢
  have htag : "</a".toList ++ ("dditionalData".toList ++ (space ++ '>' :: t')) <:+ closing :=
    (List.suffix_append q _).trans ht
  have hwhole : ∀ s ∈ closing.tails, "</a".toList <+: s → s = closing := by decide +kernel
  have heq := hwhole _ ((List.mem_tails _ _).mpr htag) (List.prefix_append _ _)
  have hq : q = [] := by
    have := ht.length_le
    rw [heq, List.length_append] at this
    exact List.length_eq_zero_iff.mp (by omega)
  rw [hq, heq, List.nil_append]

theorem closing_no_start {l : Text} : ¬ "<a".toList ++ l <:+ closing := by
  intro h
  have hall : ∀ s ∈ closing.tails, ¬ "<a".toList <+: s := by decide +kernel
  exact hall _ ((List.mem_tails _ _).mpr h) (List.prefix_append _ _)

/-- The data is read from where it was written on, and was plain. -/
theorem data_read (hnames : ∀ m ∈ ms, isName m.1 = true)
    (ht : t <:+ writtenAll (ms.map fun m => (m.1, lineEnds m.2)) ++ closing)
    (h : Lexes t (eventsOf (ms.map textNode) ++ .stop "additionalData".toList :: es) u) :
    t = writtenAll (ms.map fun m => (m.1, lineEnds m.2)) ++ closing ∧
      ∀ m ∈ ms, lineEnds m.2 = m.2 ∧ Literal m.2 := by
  obtain ⟨t', ht', hlex, hplain⟩ := h.writtenAll hnames ht
  exact hplain (closing_read ht' hlex)

/-- No element `additionalData` that begins later has the data. -/
theorem data_not_late {before : List Event} (hnames : ∀ m ∈ ms, isName m.1 = true)
    (ht : t <:+ writtenAll (ms.map fun m => (m.1, lineEnds m.2)) ++ closing)
    (h : Lexes t (before ++ .start "additionalData".toList ::
      (eventsOf (ms.map textNode) ++ .stop "additionalData".toList :: es)) u) : False := by
  obtain ⟨p, body, t', rfl, -, hrest⟩ := h.opened
  rcases hrest with ht' | ⟨-, rest, hes, -⟩
  · have hlate : t' <:+ p ++ '<' :: ("additionalData".toList ++ (body ++ '>' :: t')) :=
      ⟨p ++ '<' :: ("additionalData".toList ++ (body ++ ['>'])), by simp⟩
    obtain ⟨rfl, -⟩ := data_read hnames (hlate.trans ht) ht'
    have := ht.length_le
    simp only [List.length_append, List.length_cons] at this
    omega
  · cases ms with
    | nil => exact closing_no_start (List.IsSuffix.trans ⟨p, rfl⟩ ht)
    | cons m ms =>
      rw [List.map_cons, eventsOf_cons, events_textNode] at hes
      cases hes

/-! ### The document -/

theorem root_read {root s : Text} (hmisc : Misc ('\n' :: (opening ++ s)) t)
    (h : Lexes t (.start root :: es) u) : Lexes (opening ++ s) (.start root :: es) u := by
  have hopening : opening = '<' :: opening.tail := rfl
  cases hmisc with
  | done =>
    have hline : readToken ('\n' :: (opening ++ s)) = some ([.char '\n'], opening ++ s) := rfl
    obtain ⟨rest, heq, -⟩ := h.next hline (List.cons_ne_nil _ _)
    cases heq
  | space _ hmisc =>
    rw [hopening] at hmisc
    cases hmisc with
    | done => exact h
    | space hspace => cases hspace
    | quiet hquiet => cases hquiet

/-- The content of the root up to the text of the element `name`. -/
theorem opening_read {root s : Text} {children : List Node}
    (h : Lexes (opening ++ s) (Node.element root children).events u) :
    root = "service".toList ∧ ∃ content nodes,
      children = indent.map .char ++ .element "name".toList content :: nodes ∧
      Lexes s (eventsOf content ++
        .stop "name".toList :: (eventsOf nodes ++ [.stop "service".toList])) u := by
  rw [events_element] at h
  have hstop : Event.stop root ∉ openingEvents := by
    simp [openingEvents]
  obtain ⟨rest, heq, hrest⟩ := fixed_opening.behind h (e := .stop root) (by simp) hstop
  rw [openingEvents, List.cons_append, List.append_assoc] at heq
  obtain ⟨hroot, heq⟩ := List.cons_eq_cons.mp heq
  cases hroot
  obtain ⟨nodes, rfl, hnodes⟩ := node_chars heq
  obtain ⟨content, nodes', rfl, hcontent⟩ := node_start hnodes
  exact ⟨rfl, content, nodes', rfl, hcontent ▸ hrest⟩

/-- The content of the root from the element `name` to the content of `additionalData`. -/
theorem between_read {s : Text} {nodes : List Node}
    (h : Lexes (between appState ++ s) (eventsOf nodes ++ [.stop "service".toList]) u) :
    ∃ first content rest, nodes = first ++ .element "additionalData".toList content :: rest ∧
      first.filter (hasName "additionalData".toList) = [] ∧
      Lexes s (eventsOf content ++ .stop "additionalData".toList ::
        (eventsOf rest ++ [.stop "service".toList])) u := by
  have hstop : Event.stop "service".toList ∉ betweenEvents appState := by
    cases appState <;> decide +kernel
  obtain ⟨events, heq, hrest⟩ := (fixed_between appState).behind h (by simp) hstop
  simp only [betweenEvents, List.append_assoc, List.cons_append, List.nil_append] at heq
  obtain ⟨n₁, rfl, h₁⟩ := node_chars heq
  obtain ⟨options, n₂, rfl, h₂⟩ := node_start h₁
  obtain ⟨rfl, h₃⟩ := node_stop h₂
  obtain ⟨n₃, rfl, h₄⟩ := node_chars h₃
  obtain ⟨state, n₄, rfl, h₅⟩ := node_start h₄
  obtain ⟨state', rfl, h₆⟩ := node_chars h₅
  obtain ⟨rfl, h₇⟩ := node_stop h₆
  obtain ⟨n₅, rfl, h₈⟩ := node_chars h₇
  obtain ⟨link, n₆, rfl, h₉⟩ := node_start h₈
  obtain ⟨rfl, h₁₀⟩ := node_stop h₉
  obtain ⟨n₇, rfl, h₁₁⟩ := node_chars h₁₀
  obtain ⟨content, rest, rfl, h₁₂⟩ := node_start h₁₁
  refine ⟨indent.map .char ++ .element "options".toList [] :: (indent.map .char ++
    .element "state".toList (appState.name.toList.map .char ++ []) :: (indent.map .char ++
    .element "link".toList [] :: indent.map .char)), content, rest, ?_, rfl, h₁₂ ▸ hrest⟩
  simp only [List.append_assoc, List.cons_append]

/-- What is found in the document was plain. -/
theorem plain_of_document {root : Text} {children : List Node}
    (hnames : ∀ m ∈ ms, isName m.1 = true)
    (hdocument : Document (statusText id appState (writtenAll ms)) (.element root children))
    (hname : children.filter (hasName "name".toList) = [textNode ("name".toList, id)])
    (hdata : children.filter (hasName "additionalData".toList) =
      [.element "additionalData".toList (ms.map textNode)]) :
    (lineEnds id = id ∧ Literal id) ∧ ∀ m ∈ ms, lineEnds m.2 = m.2 ∧ Literal m.2 := by
  obtain ⟨_, _, body, s, rest, -, hdecl, hmisc, hlex, -⟩ := hdocument
  rw [lineEnds_statusText hnames, readDecl_declaration] at hdecl
  cases hdecl
  rw [events_element] at hlex
  have hroot := root_read hmisc hlex
  rw [← events_element] at hroot
  obtain ⟨rfl, content, nodes, rfl, hread⟩ := opening_read hroot
  rw [filter_chars, List.filter_cons_of_pos rfl] at hname
  rw [filter_chars, List.filter_cons_of_neg (Bool.eq_false_iff.mp rfl)] at hdata
  obtain rfl : content = id.map .char := (Node.element.inj (List.head_eq_of_cons_eq hname)).2
  rw [eventsOf_chars] at hread
  obtain ⟨t, ht, hcases⟩ := name_read hread
  rcases hcases with ⟨rfl, hid⟩ | hlate
  · obtain ⟨first, content, rest, rfl, hfirst, hcontent⟩ := between_read ht
    rw [List.filter_append, hfirst, List.nil_append, List.filter_cons_of_pos rfl] at hdata
    obtain rfl : content = ms.map textNode := (Node.element.inj (List.head_eq_of_cons_eq hdata)).2
    exact ⟨hid, (data_read hnames (List.suffix_refl _) hcontent).2⟩
  · obtain ⟨before, after, rfl⟩ : ∃ before after,
        nodes = before ++ .element "additionalData".toList (ms.map textNode) :: after :=
      List.append_of_mem (List.mem_of_mem_filter (hdata ▸ List.mem_singleton_self _))
    rw [eventsOf_append, eventsOf_cons, events_element] at ht
    simp only [List.append_assoc, List.cons_append, List.nil_append] at ht
    exact (data_not_late hnames hlate ht).elim

/-! ### In bytes -/

theorem cStr_utf8 {v : Text} (h : ∀ c ∈ v, isXmlChar c = true) : cStr (utf8 v) = utf8 v := by
  refine cStr_of_not_mem fun hzero => ?_
  obtain ⟨c, hc, hb⟩ := List.mem_flatMap.mp hzero
  rcases Nat.lt_or_ge c.toNat 128 with hlt | hge
  · rw [utf8EncodeChar_ascii hlt, List.mem_singleton] at hb
    have hnat : c.toNat = 0 := by
      have := congrArg UInt8.toNat hb
      rw [UInt8.toNat_ofNat_of_lt' (hlt.trans (by decide))] at this
      exact this.symm
    have hxml := h c hc
    simp [isXmlChar, within, hnat] at hxml
  · have := utf8EncodeChar_other hge 0 hb
    simp at this

theorem name_xml {name : Text} (h : isName name = true) : ∀ c ∈ name, isXmlChar c = true := by
  obtain ⟨-, -, -, -, hall⟩ := name_cons h
  intro c hc
  have hname := hall c hc
  simp only [isNameChar, isNameStart, isXmlChar, within, List.any_cons, List.any_nil, Bool.or_false,
    Bool.or_eq_true, decide_eq_true_eq] at hname ⊢
  omega

theorem additionalDataStr_written
    (hms : ∀ m ∈ ms, isName m.1 = true ∧ ∀ c ∈ m.2, isXmlChar c = true) :
    additionalDataStr (ms.map fun m => (utf8 m.1, .string (utf8 m.2))) =
      some (utf8 (writtenAll ms)) := by
  induction ms with
  | nil => rfl
  | cons m ms ih =>
    obtain ⟨⟨hname, hvalue⟩, hms⟩ := List.forall_mem_cons.mp hms
    have htext : (Json.string (utf8 m.2)).getString = some (utf8 m.2) :=
      congrArg some (cStr_utf8 hvalue)
    rw [List.map_cons, additionalDataStr, ih hms, cStr_utf8 (name_xml hname), htext]
    have hopen : String.utf8EncodeChar '<' = str "<" := rfl
    have hclose : String.utf8EncodeChar '>' = str ">" := rfl
    have hslash : str "</" = str "<" ++ String.utf8EncodeChar '/' := rfl
    simp only [bind, Option.bind_some, writtenAll, written, utf8, List.flatMap_cons,
      List.flatMap_append, List.flatMap_nil, hopen, hclose, hslash, List.append_assoc,
      List.append_nil]

theorem events_subset {node : Node} {nodes : List Node} (h : node ∈ nodes) :
    ∀ e ∈ node.events, e ∈ eventsOf nodes := by
  obtain ⟨before, after, rfl⟩ := List.append_of_mem h
  intro e he
  rw [eventsOf_append, eventsOf_cons]
  exact List.mem_append_right _ (List.mem_append_left _ he)

/-- Members of which the names are names of elements, as text. -/
theorem members_text {members : List (Bytes × Bytes)}
    (hnames : ∀ m ∈ members, XmlName m.1) (hvalues : ∀ m ∈ members, Verbatim m.2) :
    ∃ ms : List (Text × Text), ms.map (fun m => (utf8 m.1, utf8 m.2)) = members ∧
      ∀ m ∈ ms, isName m.1 = true ∧ lineEnds m.2 = m.2 ∧ Literal m.2 := by
  induction members with
  | nil => exact ⟨[], rfl, by simp⟩
  | cons m members ih =>
    obtain ⟨⟨name, hname, hok⟩, hnames⟩ := List.forall_mem_cons.mp hnames
    obtain ⟨hvalue, hvalues⟩ := List.forall_mem_cons.mp hvalues
    obtain ⟨v, hv, hplain⟩ := verbatim_iff.mp hvalue
    obtain ⟨ms, rfl, hms⟩ := ih hnames hvalues
    refine ⟨(name, v) :: ms, ?_, List.forall_mem_cons.mpr ⟨⟨hok, hplain⟩, hms⟩⟩
    rw [List.map_cons, hname, hv]

theorem literal_xml {v : Text} (h : Literal v) : ∀ c ∈ v, isXmlChar c = true :=
  fun c hc => ((literal_iff.mp h).1 c hc).2.2

/-- A document shows what was written into it just where that was plain. -/
theorem shows_iff {appId data : Bytes} {members : List (Bytes × Bytes)} (appState : AppState)
    (hnames : ∀ m ∈ members, XmlName m.1)
    (hdata : additionalDataStr (members.map fun m => (m.1, .string m.2)) = some data) :
    Shows (statusDocument appId appState (some data)) appId members ↔
      Verbatim appId ∧ ∀ m ∈ members, Verbatim m.2 := by
  have hwritten {ms : List (Text × Text)}
      (hms : ms.map (fun m => (utf8 m.1, utf8 m.2)) = members)
      (hok : ∀ m ∈ ms, isName m.1 = true ∧ ∀ c ∈ m.2, isXmlChar c = true) :
      data = utf8 (writtenAll ms) := by
    rw [← hms, List.map_map] at hdata
    exact Option.some.inj (hdata.symm.trans (additionalDataStr_written hok))
  constructor
  · rintro ⟨text, root, id, children, ms, htext, hid, hms, hdocument, hname, hshown⟩
    have hok : ∀ m ∈ ms, isName m.1 = true ∧ ∀ c ∈ m.2, isXmlChar c = true := by
      intro m hm
      obtain ⟨name, hn, hisName⟩ := hnames _ (hms ▸ List.mem_map_of_mem hm)
      refine ⟨utf8_inj hn ▸ hisName, fun c hc => ?_⟩
      obtain ⟨_, _, body, s, rest, -, -, -, hlex, -⟩ := hdocument
      have hdata : Node.element "additionalData".toList (ms.map textNode) ∈ children :=
        List.mem_of_mem_filter (hshown ▸ List.mem_singleton_self _)
      have hm' : textNode m ∈ ms.map textNode := List.mem_map_of_mem hm
      refine hlex.xml ?_
      rw [events_element]
      refine List.mem_cons_of_mem _ (List.mem_append_left _ (events_subset hdata _ ?_))
      rw [events_element]
      refine List.mem_cons_of_mem _ (List.mem_append_left _ (events_subset hm' _ ?_))
      rw [events_textNode]
      exact List.mem_cons_of_mem _ (List.mem_append_left _ (List.mem_map_of_mem hc))
    obtain rfl : text = statusText id appState (writtenAll ms) := by
      refine utf8_inj ?_
      rw [htext, utf8_statusText, hid, ← hwritten hms hok]
    obtain ⟨hplain, hvalues⟩ := plain_of_document (fun m hm => (hok m hm).1) hdocument hname hshown
    refine ⟨verbatim_iff.mpr ⟨id, hid, hplain⟩, fun m hm => ?_⟩
    rw [← hms] at hm
    obtain ⟨m', hm', rfl⟩ := List.mem_map.mp hm
    exact verbatim_iff.mpr ⟨m'.2, rfl, hvalues m' hm'⟩
  · rintro ⟨happId, hvalues⟩
    obtain ⟨id, rfl, hid⟩ := verbatim_iff.mp happId
    obtain ⟨ms, rfl, hms⟩ := members_text hnames hvalues
    rw [hwritten rfl fun m hm => ⟨(hms m hm).1, literal_xml (hms m hm).2.2⟩, ← utf8_statusText]
    exact shows_of_plain appState hid hms

/-! ### From the message to the document -/

def SendsData (json : Rapidjson) (message appId : Bytes) (members : List (Bytes × Bytes)) : Prop :=
  ∃ d id type, json.parse message = some (.object d) ∧
    Json.get d (str "appid") = .string id ∧ cStr id = appId ∧
    Json.get d (str "type") = .string type ∧ iequals (cStr type) (str "additionaldata") = true ∧
    Json.get d (str "additionaldata") = .object (members.map fun m => (m.1, .string m.2))

theorem understand_data {json : Rapidjson} {message appId : Bytes}
    {members : List (Bytes × Bytes)} (h : SendsData json message appId members) :
    ∃ data, additionalDataStr (members.map fun m => (m.1, .string m.2)) = some data ∧
      understand json appId message = some (.additionaldata data) := by
  obtain ⟨d, id, type, hparse, hid, rfl, htype, hadditional, hobject⟩ := h
  have hstrings : ∀ e ∈ members.map (fun m => (m.1, Json.string m.2)),
      e.2.getString.isSome = true := List.forall_mem_map.mpr fun _ _ => rfl
  obtain ⟨data, hdata⟩ := Option.ne_none_iff_exists'.mp (additionalDataStr_iff.mpr hstrings)
  refine ⟨data, hdata, ?_⟩
  have hregister : iequals (cStr type) (str "register") = false :=
    iequals_other (by decide) hadditional
  have hunregister : iequals (cStr type) (str "unregister") = false :=
    iequals_other (by decide) hadditional
  simp [understand, hparse, hid, htype, Json.isNull, Json.getString, readCommand, hregister,
    hunregister, hadditional, hobject, hdata]

namespace Daemon
variable {s : Daemon} {handler app : Nat} {r : ReceiverApplicationHandler}
  {appId data message : Bytes}

def Holds (s : Daemon) (app : Nat) (appId data : Bytes) : Prop :=
  s.manager.getAliveApplication = some app ∧
    s.manager.Live app fun a => a.appId = appId ∧ a.additionalData = data

theorem aliveIs_live {p : Application → Prop} (halive : s.manager.getAliveApplication = some app)
    (hlive : s.manager.Live app fun a => a.appId = appId ∧ p a) :
    s.aliveIs appId = .ok (some true, s) := by
  obtain ⟨a, ha, hd, rfl, -⟩ := hlive
  simp [aliveIs, halive, ApplicationManager.getAppId, ha, hd]

theorem onText_data {json : Rapidjson} {members : List (Bytes × Bytes)}
    (hr : s.handlers handler = some r) (hopen : r.isOpen = true)
    (halive : s.manager.getAliveApplication = some app)
    (hlive : s.manager.Live app fun a => a.appId = r.appId)
    (h : SendsData json message r.appId members) (uuid : Bytes) :
    ∃ data t, additionalDataStr (members.map fun m => (m.1, .string m.2)) = some data ∧
      s.onText json handler uuid message = .ok t ∧ t.Holds app r.appId data := by
  obtain ⟨data, hdata, hunderstand⟩ := understand_data h
  have his := aliveIs_live (p := fun _ => True) halive (hlive.mono fun a ha => ⟨ha, trivial⟩)
  obtain ⟨a, hderef, -⟩ := hlive.deref
  let f (a : Application) : Application := { a with additionalData := data }
  refine ⟨data, { s with manager := s.manager.modify app f }, hdata, ?_, halive,
    hlive.modify_self fun a hd ha => ⟨hd, ha, rfl⟩⟩
  unfold onText
  simp only [hr, hopen, his, Outcome.ok_bind, halive, hunderstand, perform,
    ApplicationManager.update_ok hderef, Bool.true_eq_false, if_false]
  rfl

theorem holds_document (h : s.Holds app appId data) : ∃ appState,
    s.writeStatus appId = .ok (s, .document appId appState (some data)) := by
  obtain ⟨halive, hlive⟩ := h
  have his := aliveIs_live halive hlive
  obtain ⟨a, hderef, -, rfl⟩ := hlive.deref
  refine ⟨a.appState, ?_⟩
  simp only [writeStatus, his, Outcome.ok_bind, halive, hderef]

/-- Without a token, or with that of a sender, a GET is answered with the document. -/
theorem holds_get {authToken : Bytes} (h : s.Holds app appId data)
    (hauth : authToken = [] ∨ s.checkSender authToken = true) :
    ∃ appState, s.onGet appId authToken = .ok (s, .document appId appState (some data)) ∧
      s.writeStatus appId = .ok (s, .document appId appState (some data)) := by
  obtain ⟨appState, hstatus⟩ := holds_document h
  have haccepted : ¬ (authToken ≠ [] ∧ s.checkSender authToken = false) := by
    rintro ⟨hne, hrefused⟩
    rcases hauth with rfl | hsender
    · exact hne rfl
    · rw [hsender] at hrefused
      cases hrefused
  exact ⟨appState, by rw [onGet, if_neg haccepted, hstatus], hstatus⟩

/-- As long as the application is alive with the data of a message, a GET is answered with a
document from which id and data are read back just where they were plain. -/
theorem data_read_back_iff {json : Rapidjson} {members : List (Bytes × Bytes)}
    (hr : s.handlers handler = some r) (hopen : r.isOpen = true)
    (halive : s.manager.getAliveApplication = some app)
    (hlive : s.manager.Live app fun a => a.appId = r.appId)
    (hsends : SendsData json message r.appId members) (hnames : ∀ m ∈ members, XmlName m.1)
    (uuid : Bytes) :
    ∃ data s', s.onText json handler uuid message = .ok s' ∧ s'.Holds app r.appId data ∧
      ∀ (t : Daemon) (authToken : Bytes), t.Holds app r.appId data →
        (authToken = [] ∨ t.checkSender authToken = true) →
        ∃ appState, t.onGet r.appId authToken = .ok (t, .document r.appId appState (some data)) ∧
          t.writeStatus r.appId = .ok (t, .document r.appId appState (some data)) ∧
          (Shows (statusDocument r.appId appState (some data)) r.appId members ↔
            Verbatim r.appId ∧ ∀ m ∈ members, Verbatim m.2) := by
  obtain ⟨data, s', hdata, htext, hholds⟩ := onText_data hr hopen halive hlive hsends uuid
  refine ⟨data, s', htext, hholds, fun t authToken ht hauth => ?_⟩
  obtain ⟨appState, hget, hstatus⟩ := holds_get ht hauth
  exact ⟨appState, hget, hstatus, shows_iff appState hnames hdata⟩

def dataMessage (appId : Bytes) (members : List (Bytes × Bytes)) : Bytes :=
  Rapidjson.compact.write (.object [(str "appid", .string appId),
    (str "type", .string (str "additionaldata")),
    (str "additionaldata", .object (members.map fun m => (m.1, .string m.2)))])

theorem dataMessage_sends {members : List (Bytes × Bytes)} (hid : 0 ∉ appId)
    (hmembers : ∀ m ∈ members, 0 ∉ m.1 ∧ 0 ∉ m.2) :
    SendsData Rapidjson.compact (dataMessage appId members) appId members := by
  have hdata : Json.Plain (.object (members.map fun m => (m.1, Json.string m.2))) := by
    refine .object (List.forall_mem_map.mpr fun m hm => Json.code_ne_zero (hmembers m hm).1) ?_
    exact List.forall_mem_map.mpr fun m hm => .string (Json.code_ne_zero (hmembers m hm).2)
  have htype : Json.Plain (.string (str "additionaldata")) :=
    .string (Json.code_ne_zero (by decide))
  have hplain : Json.Plain (.object [(str "appid", .string appId),
      (str "type", .string (str "additionaldata")),
      (str "additionaldata", .object (members.map fun m => (m.1, .string m.2)))]) :=
    Json.plain_cons (by decide) (.string (Json.code_ne_zero hid))
      (Json.plain_cons (by decide) htype (Json.plain_cons (by decide) hdata Json.plain_nil))
  exact ⟨_, _, _, Rapidjson.undoes_compact _ hplain, rfl, cStr_of_not_mem hid, rfl, rfl, rfl⟩

/-- An application was launched, and its receiver has opened its websocket. -/
theorem launched_open : ∃ s, start.run [.launch (str "~a") (str "app:?a") true,
      .connect (str "~a")] = .ok s ∧ s.handlers 0 = some ⟨str "~a", true, []⟩ ∧
    s.manager.getAliveApplication = some 0 ∧ s.manager.Live 0 fun a => a.appId = str "~a" :=
  ⟨_, rfl, rfl, rfl, _, rfl, rfl, rfl⟩

/-- A title that needs no markup. -/
theorem data_read_back_iff_title : ∃ s, start.run [.launch (str "~a") (str "app:?a") true,
      .connect (str "~a")] = .ok s ∧
    ∃ data s', s.onText Rapidjson.compact 0 (str "t")
        (dataMessage (str "~a") [(str "title", str "a]>b")]) = .ok s' ∧
      s'.Holds 0 (str "~a") data ∧ ∀ (t : Daemon) (authToken : Bytes), t.Holds 0 (str "~a") data →
        (authToken = [] ∨ t.checkSender authToken = true) →
        ∃ appState, t.onGet (str "~a") authToken = .ok (t, .document (str "~a") appState (some data)) ∧
          t.writeStatus (str "~a") = .ok (t, .document (str "~a") appState (some data)) ∧
          (Shows (statusDocument (str "~a") appState (some data)) (str "~a")
              [(str "title", str "a]>b")] ↔
            Verbatim (str "~a") ∧ ∀ m ∈ [(str "title", str "a]>b")], Verbatim m.2) := by
  obtain ⟨s, hrun, hr, halive, hlive⟩ := launched_open
  have hsends : SendsData Rapidjson.compact (dataMessage (str "~a") [(str "title", str "a]>b")])
      (str "~a") [(str "title", str "a]>b")] := dataMessage_sends (by decide) (by decide)
  have hnames : ∀ m ∈ [(str "title", str "a]>b")], XmlName m.1 := by
    intro m hm
    rw [List.mem_singleton.mp hm]
    exact ⟨"title".toList, utf8_str (by decide), by decide⟩
  exact ⟨s, hrun, data_read_back_iff hr rfl halive hlive hsends hnames (str "t")⟩

/-- A title with an opening bracket is not read back. -/
theorem title_lost : ∃ s data s' appState,
    start.run [.launch (str "~a") (str "app:?a") true, .connect (str "~a")] = .ok s ∧
    s.onText Rapidjson.compact 0 (str "t")
      (dataMessage (str "~a") [(str "title", str "1<2")]) = .ok s' ∧
    s'.onGet (str "~a") [] = .ok (s', .document (str "~a") appState (some data)) ∧
    XmlName (str "title") ∧
    ¬ Shows (statusDocument (str "~a") appState (some data)) (str "~a")
      [(str "title", str "1<2")] := by
  obtain ⟨s, hrun, hr, halive, hlive⟩ := launched_open
  have hsends : SendsData Rapidjson.compact (dataMessage (str "~a") [(str "title", str "1<2")])
      (str "~a") [(str "title", str "1<2")] := dataMessage_sends (by decide) (by decide)
  have hname : XmlName (str "title") := ⟨"title".toList, utf8_str (by decide), by decide⟩
  obtain ⟨data, s', hdata, htext, hholds⟩ := onText_data hr rfl halive hlive hsends (str "t")
  obtain ⟨appState, hget, -⟩ := holds_get hholds (.inl rfl)
  refine ⟨s, data, s', appState, hrun, htext, hget, hname, fun hshows => ?_⟩
  have hplain := (shows_iff appState (by simpa using hname) hdata).mp hshows
  obtain ⟨v, hv, hall, -⟩ := hplain.2 _ (List.mem_singleton_self _)
  have hvalue : v = "1<2".toList := utf8_inj (hv.trans (utf8_str (by decide)).symm)
  exact (hall '<' (by rw [hvalue]; decide)).2.1 rfl

end Daemon

end Flingd.App
