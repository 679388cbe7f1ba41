import Flingd.App.ReceiverText
import Flingd.Base.Elements

/-! The document that a GET of an application is answered with, and what a reader of XML finds in
it of the application id and of what the receiver sent as additional data. -/
namespace Flingd.App
open Outcome Xml

/-! ### What `onGet` writes -/

def AppState.name : AppState → String
  | .stopped => "stopped"
  | .starting => "starting"
  | .running => "running"
  | .stopping => "stopping"

def aliveStatus (appState : AppState) (additionalData : Bytes) : Bytes :=
  str "  <state>" ++ (str appState.name ++ (str "</state>\n" ++
  (str "  <link rel=\"run\" href=\"run\"/>\n" ++
  (str "  <additionalData>" ++ (additionalData ++ str "</additionalData>\n")))))

/-- The content of the response. Where no application of the id is alive there is no data. -/
def statusDocument (appId : Bytes) (appState : AppState) (additionalData : Option Bytes) : Bytes :=
  str "<?xml version='1.0' encoding='UTF-8'?>\n" ++
  (str "<service xmlns='urn:dial-multiscreen-org:schemas:dial'>\n" ++
  (str "  <name>" ++ (appId ++ (str "</name>\n" ++
  (str "  <options allowStop='true'/>\n" ++
  ((match additionalData with
    | some data => aliveStatus appState data
    | none => str "  <state>" ++ (str "stopped" ++ str "</state>\n")) ++
  str "</service>\n"))))))

/-! ### What should be read -/

def XmlName (n : Bytes) : Prop := ∃ name, utf8 name = n ∧ isName name = true

def hasName (tag : Text) : Node → Bool
  | .char _ => false
  | .element name _ => name = tag

/-- The document is well-formed. Its element `name` has the id as its text, and its element
`additionalData` one element for each member, with the name and the value of the member. -/
def Shows (document appId : Bytes) (members : List (Bytes × Bytes)) : Prop :=
  ∃ (text root id : Text) (children : List Node) (data : List (Text × Text)),
    utf8 text = document ∧ utf8 id = appId ∧ data.map (fun m => (utf8 m.1, utf8 m.2)) = members ∧
    Document text (.element root children) ∧
    children.filter (hasName "name".toList) = [textNode ("name".toList, id)] ∧
    children.filter (hasName "additionalData".toList) =
      [.element "additionalData".toList (data.map textNode)]

/-- Text that reads in XML as it is written. -/
def Verbatim (b : Bytes) : Prop :=
  ∃ v, utf8 v = b ∧ (∀ c ∈ v, isXmlChar c = true ∧ c ≠ '<' ∧ c ≠ '&' ∧ c ≠ '\r') ∧
    ¬ "]]>".toList <:+: v

theorem verbatim_iff {b : Bytes} :
    Verbatim b ↔ ∃ v, utf8 v = b ∧ lineEnds v = v ∧ Literal v := by
  refine exists_congr fun v => and_congr_right fun _ => ?_
  rw [lineEnds_eq_iff, literal_iff]
  constructor
  · rintro ⟨hall, hend⟩
    exact ⟨fun h => (hall _ h).2.2.2 rfl, fun c hc => ⟨(hall c hc).2.1, (hall c hc).2.2.1,
      (hall c hc).1⟩, hend⟩
  · rintro ⟨hr, hall, hend⟩
    exact ⟨fun c hc => ⟨(hall c hc).2.2, (hall c hc).1, (hall c hc).2.1,
      fun h => hr (h ▸ hc)⟩, hend⟩

/-! ### The document as text -/

def aliveText (appState : AppState) (data : Text) : Text :=
  "  <state>".toList ++ (appState.name.toList ++ ("</state>\n".toList ++
  ("  <link rel=\"run\" href=\"run\"/>\n".toList ++
  ("  <additionalData>".toList ++ (data ++ "</additionalData>\n".toList)))))

def statusText (id : Text) (appState : AppState) (data : Text) : Text :=
  "<?xml version='1.0' encoding='UTF-8'?>\n".toList ++
  ("<service xmlns='urn:dial-multiscreen-org:schemas:dial'>\n".toList ++
  ("  <name>".toList ++ (id ++ ("</name>\n".toList ++
  ("  <options allowStop='true'/>\n".toList ++ (aliveText appState data ++
  "</service>\n".toList))))))

theorem utf8_joined {s t : Text} {x y : Bytes} (hs : utf8 s = x) (ht : utf8 t = y) :
    utf8 (s ++ t) = x ++ y := by
  rw [utf8_append, hs, ht]

theorem utf8_statusText (id : Text) (appState : AppState) (data : Text) :
    utf8 (statusText id appState data) = statusDocument (utf8 id) appState (some (utf8 data)) := by
  have hname : utf8 appState.name.toList = str appState.name := by
    cases appState <;> exact utf8_str (by decide +kernel)
  refine utf8_joined (utf8_str (by decide +kernel)) (utf8_joined (utf8_str (by decide +kernel)) ?_)
  refine utf8_joined (utf8_str (by decide +kernel)) (utf8_joined rfl ?_)
  refine utf8_joined (utf8_str (by decide +kernel)) (utf8_joined (utf8_str (by decide +kernel)) ?_)
  refine utf8_joined ?_ (utf8_str (by decide +kernel))
  refine utf8_joined (utf8_str (by decide +kernel)) (utf8_joined hname ?_)
  refine utf8_joined (utf8_str (by decide +kernel)) (utf8_joined (utf8_str (by decide +kernel)) ?_)
  exact utf8_joined (utf8_str (by decide +kernel)) (utf8_joined rfl (utf8_str (by decide +kernel)))

/-! ### Its parts -/

def declaration : Text := "<?xml version='1.0' encoding='UTF-8'?>\n".toList

def opening : Text :=
  "<service xmlns='urn:dial-multiscreen-org:schemas:dial'>\n".toList ++ "  <name>".toList

def middle (appState : AppState) : Text :=
  "</name>\n".toList ++ ("  <options allowStop='true'/>\n".toList ++
  ("  <state>".toList ++ (appState.name.toList ++ ("</state>\n".toList ++
  ("  <link rel=\"run\" href=\"run\"/>\n".toList ++ "  <additionalData>".toList)))))

def closing : Text := "</additionalData>\n".toList ++ "</service>\n".toList

theorem statusText_parts (id : Text) (appState : AppState) (data : Text) :
    statusText id appState data =
      declaration ++ (opening ++ (id ++ (middle appState ++ (data ++ closing)))) := by
  have hgroup (a b c d e f g h i j k l : Text) :
      a ++ (b ++ (c ++ (id ++ (d ++ (e ++
        ((f ++ (g ++ (h ++ (i ++ (j ++ (data ++ k)))))) ++ l)))))) =
      a ++ ((b ++ c) ++ (id ++ ((d ++ (e ++ (f ++ (g ++ (h ++ (i ++ j)))))) ++
        (data ++ (k ++ l))))) := by simp only [List.append_assoc]
  exact hgroup _ _ _ _ _ _ _ _ _ _ _ _

def indent : Text := "\n  ".toList

/-- What stands between the element `name` and the name of the state. -/
def beforeState : Text :=
  indent ++ ("<options allowStop='true'/>".toList ++ (indent ++ "<state>".toList))

def afterState : Text :=
  "</state>".toList ++ (indent ++ ("<link rel=\"run\" href=\"run\"/>".toList ++
  (indent ++ "<additionalData>".toList)))

/-- The middle without the end of the element `name`. -/
def between (appState : AppState) : Text :=
  beforeState ++ (appState.name.toList ++ afterState)

theorem middle_eq (appState : AppState) :
    middle appState = "</name>".toList ++ between appState := by
  have hbefore : "</name>\n".toList ++ ("  <options allowStop='true'/>\n".toList ++
      "  <state>".toList) = "</name>".toList ++ beforeState := by decide +kernel
  have hafter : "</state>\n".toList ++ ("  <link rel=\"run\" href=\"run\"/>\n".toList ++
      "  <additionalData>".toList) = afterState := by decide +kernel
  have hgroup {a b c d e f n x y z : Text} (h : a ++ (b ++ c) = x ++ y) (h' : d ++ (e ++ f) = z) :
      a ++ (b ++ (c ++ (n ++ (d ++ (e ++ f))))) = x ++ (y ++ (n ++ z)) := by
    rw [← List.append_assoc x, ← h, ← h']
    simp only [List.append_assoc]
  exact hgroup hbefore hafter

theorem return_not_mem_between (appState : AppState) : '\r' ∉ between appState := by
  have hbefore : '\r' ∉ beforeState := by decide +kernel
  have hname : '\r' ∉ appState.name.toList := by cases appState <;> decide +kernel
  have hafter : '\r' ∉ afterState := by decide +kernel
  simp only [between, List.mem_append, hbefore, hname, hafter, or_self, not_false_eq_true]

def openingEvents : List Event :=
  Event.start "service".toList :: (indent.map Event.char ++ [Event.start "name".toList])

def betweenEvents (appState : AppState) : List Event :=
  (indent.map Event.char ++ (Event.start "options".toList :: Event.stop "options".toList ::
    (indent.map Event.char ++ [Event.start "state".toList]))) ++
  (appState.name.toList.map Event.char ++ (Event.stop "state".toList ::
    (indent.map Event.char ++ (Event.start "link".toList :: Event.stop "link".toList ::
    (indent.map Event.char ++ [Event.start "additionalData".toList])))))

theorem fixed_indent : Fixed indent (indent.map .char) := 
  .chars (forall_of_all (by decide +kernel))

theorem fixed_opening : Fixed opening openingEvents := by
  have hservice : Fixed "<service xmlns='urn:dial-multiscreen-org:schemas:dial'>".toList
      [.start "service".toList] := .single fun _ => rfl
  have hname : Fixed "<name>".toList [.start "name".toList] := .single fun _ => rfl
  have hshape : opening = "<service xmlns='urn:dial-multiscreen-org:schemas:dial'>".toList ++
      (indent ++ "<name>".toList) := by decide +kernel
  rw [hshape]
  exact hservice.append (fixed_indent.append hname)

theorem fixed_between (appState : AppState) :
    Fixed (between appState) (betweenEvents appState) := by
  have hoptions : Fixed "<options allowStop='true'/>".toList
      [.start "options".toList, .stop "options".toList] := .single fun _ => rfl
  have hopen : Fixed "<state>".toList [.start "state".toList] := .single fun _ => rfl
  have hstate : Fixed appState.name.toList (appState.name.toList.map .char) := by
    cases appState <;> exact .chars (forall_of_all (by decide +kernel))
  have hname : isName "state".toList = true := by decide
  have hclose : Fixed "</state>".toList [.stop "state".toList] := .single (readToken_stop hname)
  have hlink : Fixed "<link rel=\"run\" href=\"run\"/>".toList
      [.start "link".toList, .stop "link".toList] := .single fun _ => rfl
  have hdata : Fixed "<additionalData>".toList [.start "additionalData".toList] :=
    .single fun _ => rfl
  have hbefore := fixed_indent.append (hoptions.append (fixed_indent.append hopen))
  have hafter := hclose.append (fixed_indent.append (hlink.append (fixed_indent.append hdata)))
  exact hbefore.append (hstate.append hafter)

/-! ### What is plain is read back -/

theorem readDecl_declaration (s : Text) : readDecl (declaration ++ s) = some ('\n' :: s) := by
  have hshape : declaration =
      "<?xml".toList ++ " version='1.0' encoding='UTF-8'?>\n".toList := by decide +kernel
  have hword : (declaration ++ s).dropPrefix? "<?xml".toList =
      some (" version='1.0' encoding='UTF-8'?>\n".toList ++ s) := by
    rw [hshape, List.append_assoc]
    exact dropPrefix_some.mpr rfl
  have hspace : (" version='1.0' encoding='UTF-8'?>\n".toList ++ s).head?.any isSpace = true := rfl
  have hbody : cutAt "?>".toList (" version='1.0' encoding='UTF-8'?>\n".toList ++ s) =
      some (" version='1.0' encoding='UTF-8'".toList, '\n' :: s) := rfl
  unfold readDecl
  rw [hword]
  dsimp only
  rw [if_pos hspace, hbody]
  rfl

def childrenOf (id : Text) (appState : AppState) (data : List Node) : List Node :=
  indent.map Node.char ++ (textNode ("name".toList, id) :: (indent.map Node.char ++
  (Node.element "options".toList [] :: (indent.map Node.char ++
  (textNode ("state".toList, appState.name.toList) :: (indent.map Node.char ++
  (Node.element "link".toList [] :: (indent.map Node.char ++
  [Node.element "additionalData".toList data, Node.char '\n']))))))))

theorem events_childrenOf (id : Text) (appState : AppState) (data : List Node) :
    (Node.element "service".toList (childrenOf id appState data)).events =
      openingEvents ++ (id.map .char ++ (.stop "name".toList :: (betweenEvents appState ++
        (eventsOf data ++
          [.stop "additionalData".toList, .char '\n', .stop "service".toList])))) := by
  unfold childrenOf openingEvents betweenEvents
  simp only [eventsOf_append, eventsOf_cons, eventsOf_chars, events_textNode, eventsOf_nil,
    Node.events, List.append_assoc, List.cons_append, List.nil_append]

variable {id : Text} {appState : AppState} {ms : List (Text × Text)}

theorem lineEnds_statusText (hnames : ∀ m ∈ ms, isName m.1 = true) (id : Text)
    (appState : AppState) : lineEnds (statusText id appState (writtenAll ms)) =
      declaration ++ (opening ++ (lineEnds id ++ (middle appState ++
        (writtenAll (ms.map fun m => (m.1, lineEnds m.2)) ++ closing)))) := by
  have hm : middle appState = '<' :: ("/name>".toList ++ between appState) := middle_eq appState
  have hclean : '\r' ∉ "/name>".toList ++ between appState :=
    List.not_mem_append (by decide +kernel) (return_not_mem_between appState)
  have hclosing : lineEnds closing = closing := lineEnds_eq_iff.mpr (by decide +kernel)
  rw [statusText_parts, lineEnds_append (by decide +kernel), lineEnds_append (by decide +kernel),
    hm, lineEnds_between hclean, lineEnds_writtenAll hnames, hclosing]

theorem lexes_childrenOf (appState : AppState) (hid : Literal id)
    (hms : ∀ m ∈ ms, isName m.1 = true ∧ Literal m.2) :
    Lexes (opening ++ (id ++ (middle appState ++ (writtenAll ms ++ closing))))
      (Node.element "service".toList (childrenOf id appState (ms.map textNode))).events ['\n'] := by
  have hclosing : Lexes closing
      [.stop "additionalData".toList, .char '\n', .stop "service".toList] ['\n'] := by
    have hdataName : isName "additionalData".toList = true := by decide
    have hserviceName : isName "service".toList = true := by decide
    have hdata := readToken_stop hdataName ('\n' :: ("</service>".toList ++ ['\n']))
    have hline : readToken ('\n' :: ("</service>".toList ++ ['\n'])) =
        some ([.char '\n'], "</service>".toList ++ ['\n']) := rfl
    exact .token hdata (.token hline (.token (readToken_stop hserviceName ['\n']) (.done _)))
  have hname : Lexes ("</name>".toList ++ (between appState ++ (writtenAll ms ++ closing)))
      (.stop "name".toList :: (betweenEvents appState ++ (eventsOf (ms.map textNode) ++
        [.stop "additionalData".toList, .char '\n', .stop "service".toList]))) ['\n'] := by
    have hnameName : isName "name".toList = true := by decide
    refine .token (readToken_stop hnameName _) ?_
    exact (fixed_between appState).lexes (Literal.writtenAll hms hclosing)
  rw [events_childrenOf, middle_eq, List.append_assoc]
  exact fixed_opening.lexes (hid.lexes hname)

theorem filter_chars (tag v : Text) (nodes : List Node) :
    (v.map Node.char ++ nodes).filter (hasName tag) = nodes.filter (hasName tag) := by
  rw [List.filter_append, List.filter_map]
  simp [Function.comp_def, hasName]

theorem childrenOf_named (id : Text) (appState : AppState) (data : List Node) :
    (childrenOf id appState data).filter (hasName "name".toList) =
        [textNode ("name".toList, id)] ∧
      (childrenOf id appState data).filter (hasName "additionalData".toList) =
        [.element "additionalData".toList data] := ⟨rfl, rfl⟩

theorem shows_of_plain (appState : AppState) (hid : lineEnds id = id ∧ Literal id)
    (hms : ∀ m ∈ ms, isName m.1 = true ∧ lineEnds m.2 = m.2 ∧ Literal m.2) :
    Shows (utf8 (statusText id appState (writtenAll ms))) (utf8 id)
      (ms.map fun m => (utf8 m.1, utf8 m.2)) := by
  have hsame : ms.map (fun m => (m.1, lineEnds m.2)) = ms := by
    conv_rhs => rw [← List.map_id ms]
    exact List.map_congr_left fun m hm => by rw [(hms m hm).2.1]; rfl
  have hdecl : readDecl (lineEnds (statusText id appState (writtenAll ms))) = some ('\n' ::
      (opening ++ (id ++ (middle appState ++ (writtenAll ms ++ closing))))) := by
    rw [lineEnds_statusText (fun m hm => (hms m hm).1), hid.1, hsame, readDecl_declaration]
  have hlex := lexes_childrenOf appState hid.2 fun m hm => ⟨(hms m hm).1, (hms m hm).2.2⟩
  obtain ⟨hname, hdata⟩ := childrenOf_named id appState (ms.map textNode)
  exact ⟨_, "service".toList, id, _, ms, rfl, rfl, rfl, ⟨_, _, _, _, _, rfl, hdecl,
    .space rfl (.done _), hlex, .space rfl (.done _)⟩, hname, hdata⟩

/-! ### What is read back is plain -/

/-- No end tag of the name ends in the text behind the name. -/
theorem between_no_tag {y q b space : Text} (hy : y <+: between appState) (hne : y ≠ [])
    (hspace : space.all isSpace = true)
    (h : b ++ y = q ++ ("</name".toList ++ (space ++ ['>']))) : False := by
  obtain ⟨rest, hrest⟩ : ∃ rest, between appState = "\n  <".toList ++ rest :=
    ⟨"options allowStop='true'/>".toList ++ (indent ++ ("<state>".toList ++
      (appState.name.toList ++ afterState))), rfl⟩
  have hlate (hsuffix : y <:+ space ++ ['>']) : False := by
    have hend : '>' ∈ y := by
      rcases List.suffix_concat_iff.mp hsuffix with rfl | ⟨y', rfl, -⟩
      · exact absurd rfl hne
      · simp
    rcases List.prefix_or_prefix_of_prefix hy (hrest ▸ List.prefix_append _ _) with hpre | hpre
    · exact absurd (hpre.subset hend) (by decide)
    · have hopen : '<' ∈ space ++ ['>'] := hsuffix.subset (hpre.subset (by decide))
      rcases List.mem_append.mp hopen with hmem | hmem
      · exact absurd (List.all_eq_true.mp hspace _ hmem) (by decide)
      · exact absurd hmem (by decide)
  rcases List.append_eq_append_iff.mp h with ⟨c, -, hc⟩ | ⟨c, -, hc⟩
  · have hinfix : "</name".toList <:+: between appState :=
      List.IsInfix.trans ⟨c, space ++ ['>'], by rw [hc, List.append_assoc]⟩ hy.isInfix
    revert hinfix
    cases appState <;> decide +kernel
  · rcases List.append_eq_append_iff.mp hc with ⟨c', -, hc'⟩ | ⟨c', hc', rfl⟩
    · exact hlate ⟨c', hc'.symm⟩
    · cases c' with
      | nil => exact hlate (List.suffix_refl _)
      | cons first c' =>
        have hfirst : first = '\n' := by
          rw [hrest] at hy
          exact (List.cons_prefix_cons.mp hy).1
        have hmem : first ∈ "</name".toList := hc' ▸ List.mem_append_right c List.mem_cons_self
        exact absurd (hfirst ▸ hmem) (by decide)

end Flingd.App
