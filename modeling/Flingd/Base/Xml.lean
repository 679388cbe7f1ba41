import Flingd.Base.Utf

/-! Documents of XML 1.0 that have no document type, and what a processor that does not validate
reads of them. -/
namespace Flingd
namespace Xml

/-! ### Characters -/

def within (ranges : List (Nat × Nat)) (c : Char) : Bool :=
  ranges.any fun r => r.1 ≤ c.toNat ∧ c.toNat ≤ r.2

def isXmlChar (c : Char) : Bool :=
  within [(0x9, 0xA), (0xD, 0xD), (0x20, 0xD7FF), (0xE000, 0xFFFD), (0x10000, 0x10FFFF)] c

def isSpace (c : Char) : Bool := c = ' ' ∨ c = '\t' ∨ c = '\r' ∨ c = '\n'

def isNameStart (c : Char) : Bool :=
  within [(0x3A, 0x3A), (0x41, 0x5A), (0x5F, 0x5F), (0x61, 0x7A), (0xC0, 0xD6), (0xD8, 0xF6),
    (0xF8, 0x2FF), (0x370, 0x37D), (0x37F, 0x1FFF), (0x200C, 0x200D), (0x2070, 0x218F),
    (0x2C00, 0x2FEF), (0x3001, 0xD7FF), (0xF900, 0xFDCF), (0xFDF0, 0xFFFD), (0x10000, 0xEFFFF)] c

def isNameChar (c : Char) : Bool :=
  isNameStart c ||
    within [(0x2D, 0x2E), (0x30, 0x39), (0xB7, 0xB7), (0x300, 0x36F), (0x203F, 0x2040)] c

def isName : Text → Bool
  | [] => false
  | c :: s => isNameStart c && s.all isNameChar

def isQuote (c : Char) : Bool := c.toNat = 34 ∨ c.toNat = 39

/-- A line ends with one character, whichever of the three ways it was ended in. -/
def lineEnds : Text → Text
  | '\r' :: '\n' :: s => '\n' :: lineEnds s
  | c :: s => (if c = '\r' then '\n' else c) :: lineEnds s
  | [] => []

/-! ### Parts -/

def skipSpace (s : Text) : Text := s.dropWhile isSpace

/-- The text up to the first occurrence of a mark, and the text behind the mark. -/
def cutAt (mark : Text) : Text → Option (Text × Text)
  | [] => none
  | c :: s =>
    match (c :: s).dropPrefix? mark with
    | some rest => some ([], rest)
    | none => (cutAt mark s).map fun p => (c :: p.1, p.2)

def readName (s : Text) : Option (Text × Text) :=
  if isName (s.takeWhile isNameChar) then
    some (s.takeWhile isNameChar, s.dropWhile isNameChar)
  else none

def digit (base : Nat) (c : Char) : Option Nat :=
  let value :=
    if '0' ≤ c ∧ c ≤ '9' then c.toNat - 48
    else if 'a' ≤ c ∧ c ≤ 'f' then c.toNat - 87
    else if 'A' ≤ c ∧ c ≤ 'F' then c.toNat - 55
    else base
  if value < base then some value else none

def charRef (base : Nat) (digits : Text) : Option Char := do
  let values ← digits.mapM (digit base)
  let n := values.foldl (fun n d => n * base + d) 0
  if digits ≠ [] ∧ n.isValidChar ∧ isXmlChar (Char.ofNat n) then some (Char.ofNat n) else none

def predefined : List (Text × Char) :=
  [("lt".toList, '<'), ("gt".toList, '>'), ("amp".toList, '&'), ("apos".toList, Char.ofNat 39),
    ("quot".toList, Char.ofNat 34)]

def reference (name : Text) : Option Char :=
  match name.dropPrefix? "#x".toList, name.dropPrefix? "#".toList with
  | some digits, _ => charRef 16 digits
  | none, some digits => charRef 10 digits
  | none, none => predefined.lookup name

def readReference (s : Text) : Option (Char × Text) := do
  let (name, s) ← cutAt ";".toList s
  let c ← reference name
  some (c, s)

/-! ### Tags -/

def valueOk : Text → Bool
  | [] => true
  | c :: s => isXmlChar c && c ≠ '<' && (c ≠ '&' || (readReference s).isSome) && valueOk s

def readAttribute (s : Text) : Option ((Text × Text) × Text) := do
  let (name, s) ← readName s
  let s ← (skipSpace s).dropPrefix? "=".toList
  match skipSpace s with
  | [] => none
  | quote :: s => do
    let (value, s) ← cutAt [quote] s
    if isQuote quote ∧ valueOk value then some ((name, value), s) else none

/-- Each attribute has white space before it. -/
def readAttributes : Nat → Text → Option (List (Text × Text))
  | 0, _ => none
  | fuel+1, s =>
    if skipSpace s = [] then some []
    else if s.head?.any isSpace then do
      let (first, s) ← readAttribute (skipSpace s)
      let others ← readAttributes fuel s
      some (first :: others)
    else none

def attributesOf (body : Text) : Option (List (Text × Text)) :=
  readAttributes (body.length + 1) body

/-- The text up to the end of a tag, which is no quoted one. -/
def tagBody : Option Char → Text → Option (Text × Text)
  | _, [] => none
  | none, c :: s =>
    if c = '>' then some ([], s)
    else (tagBody (if isQuote c then some c else none) s).map fun p => (c :: p.1, p.2)
  | some quote, c :: s =>
    (tagBody (if c = quote then none else some quote) s).map fun p => (c :: p.1, p.2)

inductive Event where
  | char (c : Char)
  | start (name : Text)
  | stop (name : Text)
deriving DecidableEq

def readStartTag (s : Text) : Option (List Event × Text) := do
  let (name, s) ← readName s
  let (body, s) ← tagBody none s
  let isEmpty := body.getLast? = some '/'
  let attributes ← attributesOf (if isEmpty then body.dropLast else body)
  if (attributes.map (·.1)).Nodup then
    some (.start name :: if isEmpty then [.stop name] else [], s)
  else none

def readEndTag (s : Text) : Option (List Event × Text) := do
  let (name, s) ← readName s
  let s ← (skipSpace s).dropPrefix? ">".toList
  some ([.stop name], s)

/-! ### Content -/

def readComment (s : Text) : Option Text := do
  let (body, s) ← cutAt "--".toList s
  let s ← s.dropPrefix? ">".toList
  if body.all isXmlChar then some s else none

def readInstruction (s : Text) : Option Text := do
  let (target, s) ← readName s
  let (body, s) ← cutAt "?>".toList s
  if target.map Char.toLower ≠ "xml".toList ∧ (body = [] ∨ body.head?.any isSpace) ∧
      body.all isXmlChar then some s
  else none

def readCData (s : Text) : Option (List Event × Text) := do
  let (body, s) ← cutAt "]]>".toList s
  if body.all isXmlChar then some (body.map .char, s) else none

/-- What follows a `<` and is not reported. -/
def readMisc (s : Text) : Option Text :=
  match s.dropPrefix? "!--".toList, s.dropPrefix? "?".toList with
  | some s, _ => readComment s
  | none, some s => readInstruction s
  | none, none => none

/-- What follows a `<`. -/
def readMarkup (s : Text) : Option (List Event × Text) :=
  match readMisc s, s.dropPrefix? "![CDATA[".toList, s.dropPrefix? "/".toList with
  | some rest, _, _ => some ([], rest)
  | none, some s, _ => readCData s
  | none, none, some s => readEndTag s
  | none, none, none => readStartTag s

def readToken (s : Text) : Option (List Event × Text) :=
  match s with
  | [] => none
  | c :: rest =>
    if c = '<' then readMarkup rest
    else if c = '&' then (readReference rest).map fun p => ([.char p.1], p.2)
    else if isXmlChar c ∧ (c :: rest).dropPrefix? "]]>".toList = none then some ([.char c], rest)
    else none

/-- A text begins with a content that is reported so, and goes on with another text. -/
inductive Lexes : Text → List Event → Text → Prop
  | done (s : Text) : Lexes s [] s
  | token {s t u : Text} {es es' : List Event} (h : readToken s = some (es, t))
    (rest : Lexes t es' u) : Lexes s (es ++ es') u

/-! ### Documents -/

inductive Node where
  | char (c : Char)
  | element (name : Text) (children : List Node)

mutual

def Node.events : Node → List Event
  | .char c => [.char c]
  | .element name children => .start name :: (eventsOf children ++ [.stop name])

def eventsOf : List Node → List Event
  | [] => []
  | node :: nodes => node.events ++ eventsOf nodes

end

def encNameOk : Text → Bool
  | [] => false
  | c :: s => c.isAlpha && s.all fun c => c.isAlphanum || c = '.' || c = '_' || c = '-'

def versionOk (s : Text) : Bool :=
  match s.dropPrefix? "1.".toList with
  | some digits => digits ≠ [] && digits.all Char.isDigit
  | none => false

def declOk (attributes : List (Text × Text)) : Bool :=
  match attributes with
  | (name, version) :: rest =>
    name = "version".toList && versionOk version &&
      let rest := match rest with
        | (name, encoding) :: more =>
          if name = "encoding".toList ∧ encNameOk encoding then more else rest
        | [] => []
      match rest with
      | [] => true
      | [(name, value)] =>
        name = "standalone".toList && (value = "yes".toList || value = "no".toList)
      | _ => false
  | [] => false

def readDecl (s : Text) : Option Text :=
  match s.dropPrefix? "<?xml".toList with
  | none => some s
  | some rest =>
    if rest.head?.any isSpace then do
      let (body, rest) ← cutAt "?>".toList rest
      let attributes ← attributesOf body
      if declOk attributes then some rest else none
    else some s

inductive Misc : Text → Text → Prop
  | done (s : Text) : Misc s s
  | space {c : Char} {s t : Text} (h : isSpace c = true) (rest : Misc s t) : Misc (c :: s) t
  | quiet {s t u : Text} (h : readMisc s = some t) (rest : Misc t u) : Misc ('<' :: s) u

/-- The text is well-formed, and this is its root. -/
def Document (s : Text) (root : Node) : Prop :=
  ∃ name children body rest rest', root = .element name children ∧
    readDecl (lineEnds s) = some body ∧ Misc body rest ∧ Lexes rest root.events rest' ∧
    Misc rest' []

/-! ### What is behind a part -/

variable {s t u mark name body : Text} {es : List Event} {c : Char}

theorem dropPrefix_some : s.dropPrefix? mark = some t ↔ s = mark ++ t := by
  rw [List.dropPrefix?_eq_some_iff]
  exact ⟨fun ⟨p, hs, hp⟩ => eq_of_beq hp ▸ hs, fun hs => ⟨mark, hs, BEq.rfl⟩⟩

theorem cutAt_some (h : cutAt mark s = some (body, t)) : s = body ++ (mark ++ t) := by
  induction s generalizing body with
  | nil => cases h
  | cons c s ih =>
    rw [cutAt] at h
    split at h
    · rename_i rest hdrop
      cases h
      rw [dropPrefix_some.mp hdrop, List.nil_append]
    · obtain ⟨⟨b, r⟩, hcut, heq⟩ := Option.map_eq_some_iff.mp h
      cases heq
      rw [ih hcut, List.cons_append]

theorem readName_some (h : readName s = some (name, t)) : s = name ++ t ∧ isName name = true := by
  unfold readName at h
  split at h
  · rename_i hname
    cases h
    exact ⟨List.takeWhile_append_dropWhile.symm, hname⟩
  · cases h

theorem reference_xml (h : reference name = some c) : isXmlChar c = true := by
  have hchar {base : Nat} {digits : Text} (h : charRef base digits = some c) :
      isXmlChar c = true := by
    obtain ⟨values, -, h⟩ := Option.bind_eq_some_iff.mp h
    simp only at h
    split at h
    · rename_i hok
      cases h
      exact hok.2.2
    · cases h
  unfold reference at h
  split at h
  · exact hchar h
  · exact hchar h
  · have hall : ∀ e ∈ predefined, isXmlChar e.2 = true := by decide
    obtain ⟨k, hmem⟩ : ∃ k, (k, c) ∈ predefined := by
      obtain ⟨l₁, l₂, hl, -⟩ := List.lookup_eq_some_iff.mp h
      exact ⟨_, hl ▸ List.mem_append_right _ List.mem_cons_self⟩
    exact hall (k, c) hmem

theorem readReference_some (h : readReference s = some (c, t)) :
    ∃ p, s = p ++ t ∧ p ≠ [] ∧ isXmlChar c = true := by
  obtain ⟨⟨name, r⟩, hcut, h⟩ := Option.bind_eq_some_iff.mp h
  obtain ⟨c', hc, h⟩ := Option.bind_eq_some_iff.mp h
  cases h
  refine ⟨name ++ ";".toList, ?_, by simp, reference_xml hc⟩
  rw [cutAt_some hcut, List.append_assoc]

theorem tagBody_some {quote : Option Char} (h : tagBody quote s = some (body, t)) :
    s = body ++ '>' :: t := by
  induction s generalizing quote body with
  | nil => cases quote <;> cases h
  | cons c s ih =>
    cases quote with
    | none =>
      rw [tagBody] at h
      split at h
      · rename_i hend
        cases h
        rw [hend, List.nil_append]
      · obtain ⟨⟨b, r⟩, hrest, heq⟩ := Option.map_eq_some_iff.mp h
        cases heq
        rw [ih hrest, List.cons_append]
    | some quote =>
      rw [tagBody] at h
      obtain ⟨⟨b, r⟩, hrest, heq⟩ := Option.map_eq_some_iff.mp h
      cases heq
      rw [ih hrest, List.cons_append]

theorem tagBody_head (h : tagBody none s = some (c :: body, t)) : c ≠ '>' := by
  cases s with
  | nil => cases h
  | cons c' s =>
    rw [tagBody] at h
    split at h
    · cases h
    · rename_i hopen
      obtain ⟨p, -, heq⟩ := Option.map_eq_some_iff.mp h
      cases heq
      exact hopen

/-! ### Tokens -/

inductive Token : Text → List Event → Prop
  | literal {c : Char} (hopen : c ≠ '<') (hamp : c ≠ '&') (hxml : isXmlChar c = true) :
    Token [c] [.char c]
  /-- Characters that are written in another way, or none. -/
  | spelled {p cs : Text} (hlong : cs.length < p.length) (hxml : ∀ c ∈ cs, isXmlChar c = true) :
    Token p (cs.map .char)
  | start {name body : Text} (hname : isName name = true) :
    Token ('<' :: (name ++ (body ++ ['>']))) [.start name]
  | empty {name body : Text} {c : Char} (hname : isName name = true) (hopen : c ≠ '>') :
    Token ('<' :: (name ++ (c :: body ++ ['>']))) [.start name, .stop name]
  | stop {name space : Text} (hname : isName name = true) (hspace : space.all isSpace = true) :
    Token ('<' :: '/' :: (name ++ (space ++ ['>']))) [.stop name]

theorem readStartTag_token (h : readStartTag s = some (es, t)) :
    ∃ p, s = p ++ t ∧ Token ('<' :: p) es := by
  obtain ⟨⟨name, r⟩, hname, h⟩ := Option.bind_eq_some_iff.mp h
  obtain ⟨⟨body, r'⟩, hbody, h⟩ := Option.bind_eq_some_iff.mp h
  obtain ⟨attributes, -, h⟩ := Option.bind_eq_some_iff.mp h
  obtain ⟨hs, hok⟩ := readName_some hname
  have hr := tagBody_some hbody
  split at h
  · cases h
    refine ⟨name ++ (body ++ ['>']), by rw [hs, hr]; simp, ?_⟩
    split
    · cases body with
      | nil => contradiction
      | cons c body => exact .empty hok (tagBody_head hbody)
    · exact .start hok
  · cases h

theorem readEndTag_token (h : readEndTag s = some (es, t)) :
    ∃ p, s = p ++ t ∧ Token ('<' :: '/' :: p) es := by
  obtain ⟨⟨name, r⟩, hname, h⟩ := Option.bind_eq_some_iff.mp h
  obtain ⟨r', hend, h⟩ := Option.bind_eq_some_iff.mp h
  cases h
  obtain ⟨hs, hok⟩ := readName_some hname
  have hr : r.takeWhile isSpace ++ skipSpace r = r := List.takeWhile_append_dropWhile
  refine ⟨name ++ (r.takeWhile isSpace ++ ['>']), ?_, .stop hok List.all_takeWhile⟩
  rw [dropPrefix_some.mp hend] at hr
  rw [hs, List.append_assoc, List.append_assoc, List.singleton_append]
  exact congrArg _ hr.symm

theorem readMisc_token (h : readMisc s = some t) : ∃ p, s = p ++ t := by
  unfold readMisc at h
  split at h
  · rename_i r hdrop
    obtain ⟨⟨body, r'⟩, hcut, h⟩ := Option.bind_eq_some_iff.mp h
    obtain ⟨r'', hend, h⟩ := Option.bind_eq_some_iff.mp h
    split at h
    · cases h
      refine ⟨"!--".toList ++ (body ++ ("--".toList ++ ">".toList)), ?_⟩
      rw [dropPrefix_some.mp hdrop, cutAt_some hcut, dropPrefix_some.mp hend]
      simp
    · cases h
  · rename_i r hdrop
    obtain ⟨⟨target, r'⟩, hname, h⟩ := Option.bind_eq_some_iff.mp h
    obtain ⟨⟨body, r''⟩, hcut, h⟩ := Option.bind_eq_some_iff.mp h
    simp only at h
    split at h
    · cases h
      refine ⟨"?".toList ++ (target ++ (body ++ "?>".toList)), ?_⟩
      rw [dropPrefix_some.mp hdrop, (readName_some hname).1, cutAt_some hcut]
      simp
    · cases h
  · cases h

theorem readCData_token (h : readCData s = some (es, t)) :
    ∃ p, s = p ++ t ∧ ∃ cs : Text, es = cs.map .char ∧ cs.length ≤ p.length ∧
      ∀ c ∈ cs, isXmlChar c = true := by
  obtain ⟨⟨body, r⟩, hcut, h⟩ := Option.bind_eq_some_iff.mp h
  simp only at h
  split at h
  · rename_i hall
    cases h
    refine ⟨body ++ "]]>".toList, ?_, body, rfl, by simp, List.all_eq_true.mp hall⟩
    rw [cutAt_some hcut, List.append_assoc]
  · cases h

theorem readToken_token (h : readToken s = some (es, t)) :
    ∃ p, s = p ++ t ∧ p ≠ [] ∧ Token p es := by
  unfold readToken at h
  split at h
  · cases h
  rename_i c rest
  split at h
  · rename_i hopen
    subst hopen
    unfold readMarkup at h
    split at h
    · rename_i r hmisc
      cases h
      obtain ⟨p, rfl⟩ := readMisc_token hmisc
      have htoken : Token ('<' :: p) (([] : Text).map .char) := .spelled (by simp) (by simp)
      exact ⟨'<' :: p, rfl, List.cons_ne_nil _ _, htoken⟩
    · rename_i r _ hdrop
      obtain ⟨p, rfl, cs, rfl, hlen, hxml⟩ := readCData_token h
      refine ⟨'<' :: ("![CDATA[".toList ++ p), ?_, List.cons_ne_nil _ _, .spelled ?_ hxml⟩
      · rw [dropPrefix_some.mp hdrop, List.cons_append, List.append_assoc]
      · rw [List.length_cons, List.length_append]
        omega
    · rename_i r _ _ hdrop
      obtain ⟨p, rfl, htoken⟩ := readEndTag_token h
      refine ⟨'<' :: '/' :: p, ?_, List.cons_ne_nil _ _, htoken⟩
      rw [dropPrefix_some.mp hdrop]
      rfl
    · obtain ⟨p, rfl, htoken⟩ := readStartTag_token h
      exact ⟨'<' :: p, rfl, List.cons_ne_nil _ _, htoken⟩
  · rename_i hopen
    split at h
    · obtain ⟨⟨c', r⟩, href, heq⟩ := Option.map_eq_some_iff.mp h
      cases heq
      obtain ⟨p, rfl, hp, hxml⟩ := readReference_some href
      have hlong : [c'].length < (c :: p).length := by
        have := List.length_pos_iff.mpr hp
        simp only [List.length_cons, List.length_nil]
        omega
      exact ⟨c :: p, rfl, List.cons_ne_nil _ _, .spelled hlong (by simpa using hxml)⟩
    · rename_i hamp
      split at h
      · rename_i hok
        cases h
        exact ⟨[c], rfl, List.cons_ne_nil _ _, .literal hopen hamp hok.1⟩
      · cases h

/-! ### Reading on -/

theorem Lexes.next {es' : List Event} (hs : readToken s = some (es, t)) (h : Lexes s es' u)
    (hne : es' ≠ []) : ∃ rest, es' = es ++ rest ∧ Lexes t rest u := by
  cases h with
  | done => exact absurd rfl hne
  | token hs' hrest =>
    rw [hs] at hs'
    cases hs'
    exact ⟨_, rfl, hrest⟩

/-- Characters that are reported are characters of XML. -/
theorem Lexes.xml (h : Lexes s es u) (hc : .char c ∈ es) : isXmlChar c = true := by
  induction h with
  | done => cases hc
  | token hs _ ih =>
    rcases List.mem_append.mp hc with hc | hc
    · obtain ⟨p, -, -, htoken⟩ := readToken_token hs
      cases htoken with
      | literal _ _ hxml =>
        cases List.mem_singleton.mp hc
        exact hxml
      | spelled _ hxml =>
        obtain ⟨c', hc', heq⟩ := List.mem_map.mp hc
        cases heq
        exact hxml c hc'
      | start => simp at hc
      | empty => simp at hc
      | stop => simp at hc
    · exact ih hc

def Literal : Text → Prop
  | [] => True
  | c :: v =>
    (c ≠ '<' ∧ c ≠ '&' ∧ isXmlChar c = true ∧ ¬ "]]>".toList <+: c :: v) ∧ Literal v

theorem literal_iff {v : Text} : Literal v ↔
    (∀ c ∈ v, c ≠ '<' ∧ c ≠ '&' ∧ isXmlChar c = true) ∧ ¬ "]]>".toList <:+: v := by
  induction v with
  | nil => exact iff_of_true trivial ⟨fun c hc => absurd hc List.not_mem_nil, by decide⟩
  | cons c v ih =>
    rw [Literal, ih, List.forall_mem_cons, List.infix_cons_iff]
    tauto

theorem literal_token (hs : readToken (c :: s) = some ([.char c], s)) (hopen : c ≠ '<')
    (hamp : c ≠ '&') : ¬ "]]>".toList <+: c :: s := by
  rintro ⟨rest, hrest⟩
  rw [readToken, if_neg hopen, if_neg hamp, dropPrefix_some.mpr hrest.symm, if_neg (by simp)] at hs
  cases hs

theorem chars_append {cs v : Text} {es' : List Event}
    (h : cs.map Event.char ++ es = v.map .char ++ .stop name :: es') :
    ∃ v', v = cs ++ v' ∧ es = v'.map .char ++ .stop name :: es' := by
  induction cs generalizing v with
  | nil => exact ⟨v, rfl, h⟩
  | cons c cs ih =>
    cases v with
    | nil => cases h
    | cons c' v =>
      simp only [List.map_cons, List.cons_append, List.cons.injEq, Event.char.injEq] at h
      obtain ⟨v', rfl, hes⟩ := ih h.2
      exact ⟨v', by rw [h.1, List.cons_append], hes⟩

/-- The text of characters and of the end tag behind them is not shorter than they are, and as
long only where they stand for themselves. -/
structure Closed (v name p : Text) : Prop where
  tag : ∃ q space, p = q ++ '<' :: '/' :: (name ++ (space ++ ['>'])) ∧ space.all isSpace = true
  named : isName name = true
  long : v.length + name.length + 3 ≤ p.length
  tight : p.length = v.length + name.length + 3 →
    p = v ++ '<' :: '/' :: (name ++ ['>']) ∧ Literal v

theorem Closed.literal {v p : Text} (h : Closed v name p) (hopen : c ≠ '<') (hamp : c ≠ '&')
    (hxml : isXmlChar c = true) (hend : ¬ "]]>".toList <+: c :: (p ++ t)) :
    Closed (c :: v) name (c :: p) where
  tag := by
    obtain ⟨q, space, rfl, hspace⟩ := h.tag
    exact ⟨c :: q, space, rfl, hspace⟩
  named := h.named
  long := by
    have := h.long
    simp only [List.length_cons]
    omega
  tight hlen := by
    simp only [List.length_cons] at hlen
    obtain ⟨rfl, hv⟩ := h.tight (by omega)
    refine ⟨rfl, ⟨hopen, hamp, hxml, fun hpre => hend (hpre.trans ?_)⟩, hv⟩
    rw [List.append_assoc]
    exact List.prefix_append (c :: v) _

theorem Closed.spelled {v cs p p' : Text} (h : Closed v name p) (hlong : cs.length < p'.length) :
    Closed (cs ++ v) name (p' ++ p) where
  tag := by
    obtain ⟨q, space, rfl, hspace⟩ := h.tag
    exact ⟨p' ++ q, space, (List.append_assoc _ _ _).symm, hspace⟩
  named := h.named
  long := by
    have := h.long
    simp only [List.length_append]
    omega
  tight hlen := by
    have := h.long
    simp only [List.length_append] at hlen
    omega

theorem Closed.nil {space : Text} (hname : isName name = true) (hspace : space.all isSpace = true) :
    Closed [] name ('<' :: '/' :: (name ++ (space ++ ['>']))) where
  tag := ⟨[], space, rfl, hspace⟩
  named := hname
  long := by
    simp only [List.length_cons, List.length_append, List.length_nil]
    omega
  tight hlen := by
    simp only [List.length_cons, List.length_append, List.length_nil] at hlen
    have hnil : space = [] := List.length_eq_zero_iff.mp (by omega)
    exact ⟨by rw [hnil]; rfl, trivial⟩

/-- Characters and an end tag. -/
theorem Lexes.closed {v : Text} {es' : List Event}
    (h : Lexes s (v.map .char ++ .stop name :: es') u) :
    ∃ p t, s = p ++ t ∧ Closed v name p ∧ Lexes t es' u := by
  generalize hes : v.map .char ++ .stop name :: es' = es at h
  induction h generalizing v with
  | done => exact absurd hes (by simp)
  | token hs hrest ih =>
    obtain ⟨p, rfl, -, htoken⟩ := readToken_token hs
    cases htoken with
    | @literal c hopen hamp hxml =>
      cases v with
      | nil => cases hes
      | cons c' v =>
        simp only [List.map_cons, List.cons_append, List.nil_append, List.cons.injEq,
          Event.char.injEq] at hes
        obtain ⟨rfl, hes⟩ := hes
        obtain ⟨p, t, rfl, hclosed, hrest⟩ := ih hes
        have hend := literal_token hs hopen hamp
        exact ⟨c' :: p, t, rfl, hclosed.literal hopen hamp hxml hend, hrest⟩
    | spelled hlong =>
      obtain ⟨v', rfl, hv'⟩ := chars_append hes.symm
      obtain ⟨p', t, rfl, hclosed, hrest⟩ := ih hv'.symm
      exact ⟨p ++ p', t, (List.append_assoc _ _ _).symm, hclosed.spelled hlong, hrest⟩
    | start => cases v <;> cases hes
    | empty => cases v <;> cases hes
    | stop hname hspace =>
      cases v with
      | nil =>
        cases hes
        exact ⟨_, _, rfl, .nil hname hspace, hrest⟩
      | cons => cases hes

theorem Token.opens {p : Text} {es' : List Event} (h : Token p (es ++ .start name :: es')) :
    es = [] ∧ ∃ body, p = '<' :: (name ++ (body ++ ['>'])) ∧ isName name = true ∧
      (es' = [] ∨ es' = [.stop name] ∧ ∃ c b, body = c :: b ∧ c ≠ '>') := by
  generalize hall : es ++ .start name :: es' = all at h
  have hmem : .start name ∈ all := by simp [← hall]
  cases h with
  | literal => simp at hmem
  | spelled => simp at hmem
  | stop => simp at hmem
  | start hname =>
    cases es with
    | nil =>
      cases hall
      exact ⟨rfl, _, rfl, hname, .inl rfl⟩
    | cons e es => cases es <;> cases hall
  | @empty _ body c hname hopen =>
    cases es with
    | nil =>
      cases hall
      exact ⟨rfl, c :: body, rfl, hname, .inr ⟨rfl, c, body, rfl, hopen⟩⟩
    | cons e es =>
      cases es with
      | nil => cases hall
      | cons e' es => cases es <;> cases hall

/-- A start tag, or the tag of an element that is empty. -/
theorem Lexes.opened {es' : List Event} (h : Lexes s (es ++ .start name :: es') u) :
    ∃ p body t, s = p ++ '<' :: (name ++ (body ++ '>' :: t)) ∧ isName name = true ∧
      (Lexes t es' u ∨ (∃ c b, body = c :: b ∧ c ≠ '>') ∧
        ∃ rest, es' = .stop name :: rest ∧ Lexes t rest u) := by
  generalize hes : es ++ .start name :: es' = all at h
  induction h generalizing es with
  | done => exact absurd hes (by simp)
  | @token s t u _ es₂ hs hrest ih =>
    obtain ⟨p, rfl, -, htoken⟩ := readToken_token hs
    have hlater {es : List Event} (hes : es ++ .start name :: es' = es₂) :
        ∃ p' body t', p ++ t = p' ++ '<' :: (name ++ (body ++ '>' :: t')) ∧ isName name = true ∧
          (Lexes t' es' u ∨ (∃ c b, body = c :: b ∧ c ≠ '>') ∧
            ∃ rest, es' = .stop name :: rest ∧ Lexes t' rest u) := by
      obtain ⟨p', body, t', rfl, hname, hrest⟩ := ih hes
      exact ⟨p ++ p', body, t', (List.append_assoc _ _ _).symm, hname, hrest⟩
    rcases List.append_eq_append_iff.mp hes with ⟨c, rfl, hstart⟩ | ⟨c, rfl, hc⟩
    · cases c with
      | nil =>
        have hfirst : [] ++ .start name :: es' = es₂ := hstart
        exact hlater hfirst
      | cons e c =>
        cases hstart
        obtain ⟨rfl, body, rfl, hname, hrest'⟩ := htoken.opens
        refine ⟨[], body, t, by simp, hname, ?_⟩
        rcases hrest' with rfl | ⟨rfl, hbody⟩
        · exact .inl hrest
        · exact .inr ⟨hbody, _, rfl, hrest⟩
    · exact hlater hc.symm

end Xml
end Flingd
