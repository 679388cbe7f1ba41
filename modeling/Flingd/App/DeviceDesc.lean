import Flingd.App.FlintServer
import Flingd.App.StatusDocument
import Flingd.Base.Templates

/-! The description that `DeviceDescHandler` answers with, and what a reader of XML finds in it of
the device. -/
namespace Flingd.App
open Xml

/-! ### What is written -/

def literals (lines : List String) : Bytes := lines.flatMap str

def description (serviceURL host friendlyName modelName uuid : Bytes) : Bytes :=
  literals ["<?xml version=\"1.0\"?>\n",
    "<root xmlns=\"urn:schemas-upnp-org:device-1-0\">\n",
    "  <specVersion>\n",
    "    <major>1</major>\n",
    "    <minor>0</minor>\n",
    "  </specVersion>\n",
    "  <URLBase>http://"] ++ (serviceURL ++ (literals ["</URLBase>\n",
    "  <Host>"] ++ (host ++ (literals ["</Host>\n",
    "  <device>\n",
    "    <deviceType>urn:dial-multiscreen-org:device:dial:1</deviceType>\n",
    "    <friendlyName>"] ++ (friendlyName ++ (literals ["</friendlyName>\n",
    "    <manufacturer>", "openflint", "</manufacturer>\n",
    "    <modelName>"] ++ (modelName ++ (literals ["</modelName>\n",
    "    <UDN>uuid:"] ++ (uuid ++ literals ["</UDN>\n",
    "    <iconList>\n",
    "      <icon>\n",
    "        <mimetype>image/png</mimetype>\n",
    "        <width>98</width>\n",
    "        <height>55</height>\n",
    "        <depth>32</depth>\n",
    "        <url>/setup/icon.png</url>\n",
    "      </icon>\n",
    "    </iconList>\n",
    "    <serviceList>\n",
    "      <service>\n",
    "        <serviceType>urn:dial-multiscreen-org:service:dial:1</serviceType>\n",
    "        <serviceId>urn:dial-multiscreen-org:serviceId:dial</serviceId>\n",
    "        <controlURL>/ssdp/notfound</controlURL>\n",
    "        <eventSubURL>/ssdp/notfound</eventSubURL>\n",
    "        <SCPDURL>/ssdp/notfound</SCPDURL>\n",
    "      </service>\n",
    "    </serviceList>\n",
    "  </device>\n",
    "</root>\n"])))))))))

def descriptionHeaders (serviceURL : Bytes) : StdMap Bytes Bytes :=
  ((StdMap.empty.insert (str "Access-Control-Expose-Headers") (str "Application-URL")).insert
    (str "Application-URL") (str "http://" ++ serviceURL ++ str "/apps")).insert
    (str "Content-Type") (str "application/xml")

/-! ### What should be read -/

def newLine (spaces : Nat) : Text := '\n' :: List.replicate spaces ' '

def onLines (spaces : Nat) (nodes : List Node) : List Node :=
  nodes.flatMap fun node => (newLine spaces).map Node.char ++ [node]

/-- An element of which the elements are on lines of their own. -/
def block (spaces : Nat) (name : String) (nodes : List Node) : Node :=
  .element name.toList (onLines (spaces + 2) nodes ++ (newLine spaces).map Node.char)

def leaf (name : String) (v : Text) : Node := textNode (name.toList, v)

def descriptionNode (serviceURL host friendlyName modelName uuid : Text) : Node :=
  block 0 "root" [
    block 2 "specVersion" [leaf "major" "1".toList, leaf "minor" "0".toList],
    leaf "URLBase" ("http://".toList ++ serviceURL),
    leaf "Host" host,
    block 2 "device" [
      leaf "deviceType" "urn:dial-multiscreen-org:device:dial:1".toList,
      leaf "friendlyName" friendlyName,
      leaf "manufacturer" "openflint".toList,
      leaf "modelName" modelName,
      leaf "UDN" ("uuid:".toList ++ uuid),
      block 4 "iconList" [block 6 "icon" [
        leaf "mimetype" "image/png".toList, leaf "width" "98".toList, leaf "height" "55".toList,
        leaf "depth" "32".toList, leaf "url" "/setup/icon.png".toList]],
      block 4 "serviceList" [block 6 "service" [
        leaf "serviceType" "urn:dial-multiscreen-org:service:dial:1".toList,
        leaf "serviceId" "urn:dial-multiscreen-org:serviceId:dial".toList,
        leaf "controlURL" "/ssdp/notfound".toList, leaf "eventSubURL" "/ssdp/notfound".toList,
        leaf "SCPDURL" "/ssdp/notfound".toList]]]]

/-- The names of the elements that a client looks for. -/
def descriptionKeys : List Text :=
  ["URLBase", "Host", "friendlyName", "modelName", "UDN"].map String.toList

/-- The text is well-formed, and among its elements those that a client looks for are there once
each and in this order, with what they should tell of the device. -/
def Describes (document serviceURL host friendlyName modelName uuid : Bytes) : Prop :=
  ∃ (text a b c d e : Text) (root : Node), utf8 text = document ∧ utf8 a = serviceURL ∧
    utf8 b = host ∧ utf8 c = friendlyName ∧ utf8 d = modelName ∧ utf8 e = uuid ∧
    Document text root ∧
    root.named descriptionKeys =
      [textNode ("URLBase".toList, "http://".toList ++ a), textNode ("Host".toList, b),
        textNode ("friendlyName".toList, c), textNode ("modelName".toList, d),
        textNode ("UDN".toList, "uuid:".toList ++ e)]

namespace DeviceDesc

/-! ### The fixed parts -/

def prolog : Text := "<?xml version=\"1.0\"?>\n".toList

def rootTag : Text := "<root xmlns=\"urn:schemas-upnp-org:device-1-0\">".toList

/-- An element on a line of its own, of which the text is fixed. -/
def line (spaces : Nat) (name v : String) : List Piece :=
  [.text (newLine spaces), .start name.toList, .text v.toList, .stop name.toList]

def opens (spaces : Nat) (name : String) : List Piece :=
  [.text (newLine spaces), .start name.toList]

def closes (spaces : Nat) (name : String) : List Piece :=
  [.text (newLine spaces), .stop name.toList]

def firstPieces : List Piece :=
  opens 2 "specVersion" ++ (line 4 "major" "1" ++ (line 4 "minor" "0" ++
    (closes 2 "specVersion" ++ [.text (newLine 2)])))

def devicePieces : List Piece :=
  opens 2 "device" ++ (line 4 "deviceType" "urn:dial-multiscreen-org:device:dial:1" ++
    [.text (newLine 4)])

def modelPieces : List Piece := line 4 "manufacturer" "openflint" ++ [.text (newLine 4)]

def upTo (before : List Piece) (name : String) (lead : Text) : List Piece :=
  before ++ [.start name.toList, .text lead]

def slots (serviceURL host friendlyName modelName uuid : Text) : List Slot :=
  [⟨firstPieces, "URLBase".toList, "http://".toList, serviceURL⟩,
    ⟨[.text (newLine 2)], "Host".toList, [], host⟩,
    ⟨devicePieces, "friendlyName".toList, [], friendlyName⟩,
    ⟨modelPieces, "modelName".toList, [], modelName⟩,
    ⟨[.text (newLine 4)], "UDN".toList, "uuid:".toList, uuid⟩]

def lastPieces : List Piece :=
  opens 4 "iconList" ++ (opens 6 "icon" ++ (line 8 "mimetype" "image/png" ++ (line 8 "width" "98" ++
  (line 8 "height" "55" ++ (line 8 "depth" "32" ++ (line 8 "url" "/setup/icon.png" ++
  (closes 6 "icon" ++ (closes 4 "iconList" ++ (opens 4 "serviceList" ++ (opens 6 "service" ++
  (line 8 "serviceType" "urn:dial-multiscreen-org:service:dial:1" ++
  (line 8 "serviceId" "urn:dial-multiscreen-org:serviceId:dial" ++
  (line 8 "controlURL" "/ssdp/notfound" ++ (line 8 "eventSubURL" "/ssdp/notfound" ++
  (line 8 "SCPDURL" "/ssdp/notfound" ++ (closes 6 "service" ++ (closes 4 "serviceList" ++
  (closes 2 "device" ++ closes 0 "root"))))))))))))))))))

def last : Text := writtenPieces lastPieces ++ ['\n']

def descriptionText (serviceURL host friendlyName modelName uuid : Text) : Text :=
  prolog ++ (rootTag ++ filled (slots serviceURL host friendlyName modelName uuid) last)

variable {a b c d e : Text}

theorem names_keys : ∀ name ∈ descriptionKeys, isName name = true := by decide +kernel

theorem fits_slots : ∀ slot ∈ slots a b c d e, slot.Fits descriptionKeys := by
  intro slot hslot
  simp only [slots, List.mem_cons, List.not_mem_nil, or_false] at hslot
  rcases hslot with rfl | rfl | rfl | rfl | rfl <;>
    refine .of_pieces names_keys ?_ ?_ ?_ ?_ ?_ ?_ <;> dsimp only [Slot.pieces] <;> decide +kernel

def between (name : String) (pieces : List Piece) : Text :=
  '<' :: ('/' :: (name.toList ++ ['>']) ++ writtenPieces pieces)

theorem utf8_literals {v : Text} {lines : List String} (h : v = lines.flatMap String.toList)
    (hv : v.all (·.toNat < 128) = true) : utf8 v = literals lines := by
  rw [utf8_ascii hv, h, List.map_flatMap]
  rfl

theorem utf8_descriptionText : utf8 (descriptionText a b c d e) =
    description (utf8 a) (utf8 b) (utf8 c) (utf8 d) (utf8 e) := by
  have hshape : descriptionText a b c d e =
      (prolog ++ (rootTag ++ writtenPieces (upTo firstPieces "URLBase" "http://".toList))) ++ (a ++
        (between "URLBase" (upTo [.text (newLine 2)] "Host" []) ++ (b ++
          (between "Host" (upTo devicePieces "friendlyName" []) ++ (c ++
            (between "friendlyName" (upTo modelPieces "modelName" []) ++ (d ++
              (between "modelName" (upTo [.text (newLine 4)] "UDN" "uuid:".toList) ++ (e ++
                (between "UDN" lastPieces ++ ['\n'])))))))))) := by
    simp only [descriptionText, slots, filled, between, last, upTo, Slot.pieces, List.foldr_cons,
      List.foldr_nil, List.append_assoc, List.cons_append]
  rw [hshape]
  refine utf8_joined (utf8_literals (by decide +kernel) (by decide +kernel)) (utf8_joined rfl ?_)
  refine utf8_joined (utf8_literals (by decide +kernel) (by decide +kernel)) (utf8_joined rfl ?_)
  refine utf8_joined (utf8_literals (by decide +kernel) (by decide +kernel)) (utf8_joined rfl ?_)
  refine utf8_joined (utf8_literals (by decide +kernel) (by decide +kernel)) (utf8_joined rfl ?_)
  refine utf8_joined (utf8_literals (by decide +kernel) (by decide +kernel)) (utf8_joined rfl ?_)
  exact utf8_literals (by decide +kernel) (by decide +kernel)

theorem events_descriptionNode : (descriptionNode a b c d e).events =
    .start "root".toList :: filledEvents (slots a b c d e) (eventsPieces lastPieces) := by
  simp only [descriptionNode, block, leaf, onLines, List.flatMap_cons, List.flatMap_nil,
    events_element, events_textNode, eventsOf_append, eventsOf_cons, eventsOf_chars,
    filledEvents, slots, Slot.pieces, firstPieces, devicePieces, modelPieces, lastPieces,
    eventsPieces, line, opens, closes, Piece.events, List.foldr_cons, List.foldr_nil,
    List.append_assoc, List.cons_append, List.nil_append, List.append_nil,
    List.map_append, List.map_nil, Nat.reduceAdd]

theorem named_descriptionNode : (descriptionNode a b c d e).named descriptionKeys =
    [textNode ("URLBase".toList, "http://".toList ++ a), textNode ("Host".toList, b),
      textNode ("friendlyName".toList, c), textNode ("modelName".toList, d),
      textNode ("UDN".toList, "uuid:".toList ++ e)] := by
  have hkey {name : String} (v : Text) (h : name.toList ∈ descriptionKeys) :
      (leaf name v).named descriptionKeys = [leaf name v] := by
    rw [leaf, textNode, Node.named, if_pos h, namedOf_chars]
    rfl
  have hother {name : String} (v : Text) (h : name.toList ∉ descriptionKeys) :
      (leaf name v).named descriptionKeys = [] := by
    rw [leaf, textNode, Node.named, if_neg h, namedOf_chars]
    rfl
  have hblock {spaces : Nat} {name : String} (nodes : List Node) (h : name.toList ∉ descriptionKeys) :
      (block spaces name nodes).named descriptionKeys = nodes.flatMap (Node.named descriptionKeys) := by
    rw [block, Node.named, if_neg h, namedOf_append, namedOf_chars, List.append_nil, List.nil_append]
    induction nodes with
    | nil => rfl
    | cons node nodes ih =>
      rw [onLines, List.flatMap_cons, namedOf_append, namedOf_append, namedOf_chars, List.nil_append,
        List.flatMap_cons, namedOf, namedOf, List.append_nil]
      exact congrArg _ ih
  simp (disch := decide +kernel) only [descriptionNode, hblock, hkey, hother, List.flatMap_cons,
    List.flatMap_nil, List.append_nil, List.nil_append, List.cons_append]
  rfl

/-! ### What is read -/

theorem lineEnds_descriptionText : lineEnds (descriptionText a b c d e) =
    prolog ++ (rootTag ++ lineEnds (filled (slots a b c d e) last)) := by
  rw [descriptionText, lineEnds_append (by decide +kernel), lineEnds_append (by decide +kernel)]

theorem readDecl_prolog (s : Text) : readDecl (prolog ++ s) = some ('\n' :: s) := by
  have hshape : prolog = "<?xml".toList ++ " version=\"1.0\"?>\n".toList := by decide +kernel
  have hword : (prolog ++ s).dropPrefix? "<?xml".toList =
      some (" version=\"1.0\"?>\n".toList ++ s) := by
    rw [hshape, List.append_assoc]
    exact dropPrefix_some.mpr rfl
  have hspace : (" version=\"1.0\"?>\n".toList ++ s).head?.any isSpace = true := rfl
  have hbody : cutAt "?>".toList (" version=\"1.0\"?>\n".toList ++ s) =
      some (" version=\"1.0\"".toList, '\n' :: s) := rfl
  unfold readDecl
  rw [hword]
  dsimp only
  rw [if_pos hspace, hbody]
  rfl

theorem fixed_rootTag : Fixed rootTag [.start "root".toList] := .single fun _ => rfl

theorem last_eq : last = writtenPieces (lastPieces ++ [.text ['\n']]) :=
  (writtenPieces_text lastPieces ['\n']).symm

theorem ok_last : (lastPieces ++ [Piece.text ['\n']]).all Piece.ok = true := by decide +kernel

theorem lineEnds_last : lineEnds last = last := by
  rw [lineEnds_eq_iff, last_eq]
  exact clean_pieces ok_last

theorem inner_last : Inner descriptionKeys (lineEnds last) := by
  rw [lineEnds_last, last_eq]
  exact .of_pieces names_keys ok_last (by decide +kernel) (by decide +kernel) (by decide +kernel)

/-- The root is read from its tag on. -/
theorem rootTag_read {s t u : Text} {root : Text} {es : List Event}
    (hmisc : Misc ('\n' :: (rootTag ++ s)) t) (h : Lexes t (.start root :: es) u) {e : Event}
    (he : e ∈ es) (hne : e ≠ .start "root".toList) : root = "root".toList ∧ Lexes s es u := by
  have htag : rootTag = '<' :: rootTag.tail := rfl
  have hread : Lexes (rootTag ++ s) (.start root :: es) u := by
    cases hmisc with
    | done =>
      have hline : readToken ('\n' :: (rootTag ++ s)) = some ([.char '\n'], rootTag ++ s) := rfl
      obtain ⟨rest, heq, -⟩ := h.next hline (List.cons_ne_nil _ _)
      cases heq
    | space _ hmisc =>
      rw [htag] at hmisc
      cases hmisc with
      | done => exact h
      | space hspace => cases hspace
      | quiet hquiet => cases hquiet
  obtain ⟨rest, heq, hrest⟩ := fixed_rootTag.behind hread (List.mem_cons_of_mem _ he)
    (by simpa using hne)
  cases heq
  exact ⟨rfl, hrest⟩

/-- What is found by the names is there only where what was written into the text is plain. -/
theorem plain_of_document {root : Node} (ha : a ≠ []) (hb : b ≠ []) (hc : c ≠ []) (hd : d ≠ [])
    (he : e ≠ []) (h : Document (descriptionText a b c d e) root)
    (hnamed : root.named descriptionKeys = ((slots a b c d e).map Slot.told).map textNode) :
    ∀ v ∈ [a, b, c, d, e], lineEnds v = v ∧ Literal v := by
  have hslots : ∀ slot ∈ slots a b c d e, slot.Fits descriptionKeys ∧ slot.value ≠ [] := by
    refine fun slot hslot => ⟨fits_slots slot hslot, ?_⟩
    simp only [slots, List.mem_cons, List.not_mem_nil, or_false] at hslot
    rcases hslot with rfl | rfl | rfl | rfl | rfl <;> assumption
  obtain ⟨name, children, body, s, rest, rfl, hdecl, hmisc, hlex, -⟩ := h
  rw [lineEnds_descriptionText, readDecl_prolog] at hdecl
  cases hdecl
  have htells := Node.tells _ hnamed
  rw [events_element] at hlex htells
  have hmem : Event.start "Host".toList ∈ eventsOf children ++ [.stop name] := by
    -- it stands behind the first of the elements, which may be the root as far as we know
    obtain ⟨es₁, es₂, hes, hrest⟩ := htells.split
    obtain ⟨es₃, es₄, rfl, -⟩ := hrest.split
    cases es₁ with
    | nil =>
      rw [(List.cons_eq_cons.mp hes).2]
      simp
    | cons e es₁ =>
      rw [(List.cons_eq_cons.mp hes).2]
      simp
  obtain ⟨rfl, hread⟩ := rootTag_read hmisc hlex hmem (by decide)
  have hroot : Tells descriptionKeys ([.start "root".toList] ++
      (eventsOf children ++ [.stop "root".toList])) ((slots a b c d e).map Slot.told) := htells
  have hinside := hroot.behind (by decide +kernel)
  have hplain := Lexes.filled hslots inner_last hread hinside
  simpa [slots] using hplain

theorem document_of_plain (h : ∀ v ∈ [a, b, c, d, e], lineEnds v = v ∧ Literal v) :
    Document (descriptionText a b c d e) (descriptionNode a b c d e) := by
  have hplain : ∀ slot ∈ slots a b c d e, lineEnds slot.value = slot.value ∧ Literal slot.value := by
    simpa [slots] using h
  have hread : Lexes last (eventsPieces lastPieces) ['\n'] := by
    have hok : lastPieces.all Piece.ok = true :=
      ((Bool.and_eq_true _ _).mp (List.all_append.symm.trans ok_last)).1
    have h := (fixed_pieces hok).lexes (.done ['\n'])
    rwa [List.append_nil] at h
  have hfilled := lexes_filled fits_slots hplain lineEnds_last hread
  have hmisc {s : Text} : Misc ('\n' :: s) s := .space rfl (.done s)
  refine ⟨_, _, _, rootTag ++ lineEnds (filled (slots a b c d e) last), ['\n'], rfl, ?_, hmisc,
    ?_, hmisc⟩
  · rw [lineEnds_descriptionText, readDecl_prolog]
  · rw [events_descriptionNode]
    exact fixed_rootTag.lexes hfilled

end DeviceDesc

/-! ### What a client finds -/

def describedBy : List Action → Option Bytes
  | [.response (.description serviceURL host friendlyName modelName uuid)] =>
    some (description serviceURL host friendlyName modelName uuid)
  | _ => none

/-- Behind plain text the port is plain. -/
theorem plain_port {v : Text} : lineEnds (v ++ ":9431".toList) = v ++ ":9431".toList ∧
    Literal (v ++ ":9431".toList) ↔ lineEnds v = v ∧ Literal v := by
  have hport : ":9431".toList = [':', '9', '4', '3', '1'] := rfl
  have hxml : [':', '9', '4', '3', '1'].all isXmlChar = true := by decide +kernel
  rw [hport, lineEnds_eq_iff, lineEnds_eq_iff]
  refine and_congr (by simp) ?_
  induction v with
  | nil => exact iff_of_true (by simpa [Literal] using hxml) trivial
  | cons c v ih =>
    rw [List.cons_append, Literal, Literal, ih]
    refine and_congr_left fun _ => and_congr_right fun _ => and_congr_right fun _ =>
      and_congr_right fun _ => not_congr ⟨fun h => ?_, fun h => ?_⟩
    · rcases v with - | ⟨a, - | ⟨b, v⟩⟩
      · simp at h
      · simp at h
      · simp only [List.cons_append] at h
        simpa using h
    · exact h.trans (List.prefix_append (c :: v) _)

/-- A description is well-formed and tells a client what the device is called just where the host,
the names and the id stand for themselves in XML. -/
theorem device_described_iff (device : Device) (r : HttpRequest) (hhost : r.host ≠ [])
    (hname : device.deviceName_ ≠ []) (hmodel : device.modelName_ ≠ []) (huuid : device.uuid ≠ []) :
    ∃ body, describedBy (deviceDescHandler device r) = some body ∧
      (Describes body (r.host ++ str ":9431") r.host device.deviceName_ device.modelName_
        device.uuid ↔ ∀ b ∈ [r.host, device.deviceName_, device.modelName_, device.uuid],
          Verbatim b) := by
  have hempty : iequals device.deviceName_ [] = false := by simpa [iequals] using hname
  have hurl : r.host ++ str ":9431" ≠ [] := by simp [hhost]
  refine ⟨_, by rw [deviceDescHandler, hempty]; rfl, ?_⟩
  have hne {v : Text} {b : Bytes} (hv : utf8 v = b) (hb : b ≠ []) : v ≠ [] := by
    rintro rfl
    exact hb hv.symm
  constructor
  · rintro ⟨text, a, b, c, d, e, root, htext, ha, hb, hc, hd, he, hdocument, hnamed⟩
    obtain rfl : text = DeviceDesc.descriptionText a b c d e := by
      refine utf8_inj ?_
      rw [htext, DeviceDesc.utf8_descriptionText, ha, hb, hc, hd, he]
    have hplain := DeviceDesc.plain_of_document (hne ha hurl) (hne hb hhost) (hne hc hname)
      (hne hd hmodel) (hne he huuid) hdocument hnamed
    simp only [List.forall_mem_cons, List.not_mem_nil, false_implies, implies_true, and_true]
      at hplain ⊢
    exact ⟨verbatim_iff.mpr ⟨b, hb, hplain.2.1⟩, verbatim_iff.mpr ⟨c, hc, hplain.2.2.1⟩,
      verbatim_iff.mpr ⟨d, hd, hplain.2.2.2.1⟩, verbatim_iff.mpr ⟨e, he, hplain.2.2.2.2⟩⟩
  · intro hverbatim
    simp only [List.forall_mem_cons, List.not_mem_nil, false_implies, implies_true, and_true]
      at hverbatim
    obtain ⟨hb, hc, hd, he⟩ := hverbatim
    obtain ⟨b, hb, hbplain⟩ := verbatim_iff.mp hb
    obtain ⟨c, hc, hcplain⟩ := verbatim_iff.mp hc
    obtain ⟨d, hd, hdplain⟩ := verbatim_iff.mp hd
    obtain ⟨e, he, heplain⟩ := verbatim_iff.mp he
    have ha : utf8 (b ++ ":9431".toList) = r.host ++ str ":9431" :=
      utf8_joined hb (utf8_str (by decide +kernel))
    refine ⟨DeviceDesc.descriptionText (b ++ ":9431".toList) b c d e, b ++ ":9431".toList, b, c, d, e,
      _, ?_, ha, hb, hc, hd, he, DeviceDesc.document_of_plain ?_, DeviceDesc.named_descriptionNode⟩
    · rw [DeviceDesc.utf8_descriptionText, ha, hb, hc, hd, he]
    · simp only [List.forall_mem_cons, List.not_mem_nil, false_implies, implies_true, and_true]
      exact ⟨plain_port.mpr hbplain, hbplain, hcplain, hdplain, heplain⟩

/-- A device that somebody has called `A<B`. -/
theorem device_described_iff_ab : ∃ body,
    describedBy (deviceDescHandler ⟨str "A<B", str "Matchstick", str "1f2e", str "0.5", false⟩
      ⟨str "/ssdp/device-desc.xml", str "GET", str "10.0.0.2", [], []⟩) = some body ∧
    (Describes body (str "10.0.0.2" ++ str ":9431") (str "10.0.0.2") (str "A<B") (str "Matchstick")
      (str "1f2e") ↔ ∀ b ∈ [str "10.0.0.2", str "A<B", str "Matchstick", str "1f2e"],
        Verbatim b) :=
  device_described_iff ⟨str "A<B", str "Matchstick", str "1f2e", str "0.5", false⟩
    ⟨str "/ssdp/device-desc.xml", str "GET", str "10.0.0.2", [], []⟩ (by decide) (by decide)
    (by decide) (by decide)

end Flingd.App
