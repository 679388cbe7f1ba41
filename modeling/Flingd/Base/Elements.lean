import Flingd.Base.Xml

/-! What is written with the tags of XML around it, and what is read of it. -/
namespace Flingd
namespace Xml
variable {s t u v w name p q : Text} {es es' : List Event} {c : Char} {nodes : List Node}

/-! ### Contents and their events -/

@[simp] theorem eventsOf_nil : eventsOf [] = [] := rfl

theorem eventsOf_cons (node : Node) (nodes : List Node) :
    eventsOf (node :: nodes) = node.events ++ eventsOf nodes := by
  rw [eventsOf]

theorem eventsOf_append (nodes nodes' : List Node) :
    eventsOf (nodes ++ nodes') = eventsOf nodes ++ eventsOf nodes' := by
  induction nodes with
  | nil => rfl
  | cons node nodes ih => rw [List.cons_append, eventsOf_cons, ih, eventsOf_cons, List.append_assoc]

theorem eventsOf_chars (v : Text) : eventsOf (v.map .char) = v.map .char := by
  induction v with
  | nil => rfl
  | cons c v ih =>
    rw [List.map_cons, eventsOf_cons, ih, Node.events]
    rfl

theorem events_element (name : Text) (nodes : List Node) :
    (Node.element name nodes).events = .start name :: (eventsOf nodes ++ [.stop name]) := by
  rw [Node.events]

theorem node_char (h : eventsOf nodes ++ .stop name :: es = .char c :: es') :
    ∃ nodes', nodes = .char c :: nodes' ∧ eventsOf nodes' ++ .stop name :: es = es' := by
  cases nodes with
  | nil => cases h
  | cons node nodes =>
    rw [eventsOf_cons] at h
    cases node with
    | char c' =>
      rw [Node.events] at h
      cases h
      exact ⟨nodes, rfl, rfl⟩
    | element =>
      rw [events_element] at h
      cases h

theorem node_start {tag : Text} (h : eventsOf nodes ++ .stop name :: es = .start tag :: es') :
    ∃ children nodes', nodes = .element tag children :: nodes' ∧
      eventsOf children ++ .stop tag :: (eventsOf nodes' ++ .stop name :: es) = es' := by
  cases nodes with
  | nil => cases h
  | cons node nodes =>
    rw [eventsOf_cons] at h
    cases node with
    | char c' =>
      rw [Node.events] at h
      cases h
    | element tag' children =>
      rw [events_element] at h
      simp only [List.cons_append, List.append_assoc, List.nil_append, List.cons.injEq,
        Event.start.injEq] at h
      obtain ⟨rfl, h⟩ := h
      exact ⟨children, nodes, rfl, h⟩

theorem node_stop {tag : Text} (h : eventsOf nodes ++ .stop name :: es = .stop tag :: es') :
    nodes = [] ∧ es = es' := by
  cases nodes with
  | nil =>
    cases h
    exact ⟨rfl, rfl⟩
  | cons node nodes =>
    rw [eventsOf_cons] at h
    cases node with
    | char c' =>
      rw [Node.events] at h
      cases h
    | element tag' children =>
      rw [events_element] at h
      cases h

theorem node_chars {v : Text} (h : eventsOf nodes ++ .stop name :: es = v.map .char ++ es') :
    ∃ nodes', nodes = v.map .char ++ nodes' ∧ eventsOf nodes' ++ .stop name :: es = es' := by
  induction v generalizing nodes with
  | nil => exact ⟨nodes, rfl, h⟩
  | cons c v ih =>
    obtain ⟨nodes', rfl, hnodes'⟩ := node_char h
    obtain ⟨nodes'', rfl, hnodes''⟩ := ih hnodes'
    exact ⟨nodes'', rfl, hnodes''⟩

/-! ### Fixed text -/

/-- The text is read as these events, whatever follows it. -/
inductive Fixed : Text → List Event → Prop
  | nil : Fixed [] []
  | token {p q : Text} {es es' : List Event} (h : ∀ x, readToken (p ++ x) = some (es, x))
    (rest : Fixed q es') : Fixed (p ++ q) (es ++ es')

theorem Fixed.single (h : ∀ x, readToken (p ++ x) = some (es, x)) : Fixed p es := by
  have hfixed := Fixed.nil.token h
  rwa [List.append_nil, List.append_nil] at hfixed

theorem Fixed.append (h : Fixed p es) (h' : Fixed q es') : Fixed (p ++ q) (es ++ es') := by
  induction h with
  | nil => exact h'
  | token hs _ ih =>
    rw [List.append_assoc, List.append_assoc]
    exact ih.token hs

/-- Characters that can stand before every other stand for themselves. -/
theorem Fixed.chars (h : ∀ c ∈ v, c ≠ '<' ∧ c ≠ '&' ∧ c ≠ ']' ∧ isXmlChar c = true) :
    Fixed v (v.map .char) := by
  induction v with
  | nil => exact .nil
  | cons c v ih =>
    obtain ⟨⟨hopen, hamp, hend, hxml⟩, hv⟩ := List.forall_mem_cons.mp h
    have hfirst (x : Text) : readToken ([c] ++ x) = some ([.char c], x) := by
      have hdrop : (c :: x).dropPrefix? [']', ']', '>'] = none := if_neg (by simpa using hend)
      change readToken (c :: x) = _
      rw [readToken, if_neg hopen, if_neg hamp, if_pos ⟨hxml, hdrop⟩]
    exact (ih hv).token hfirst

theorem Fixed.lexes (h : Fixed p es) (hs : Lexes s es' t) : Lexes (p ++ s) (es ++ es') t := by
  induction h with
  | nil => exact hs
  | token htoken _ ih =>
    rw [List.append_assoc, List.append_assoc]
    exact .token (htoken _) ih

/-- A content that begins with the text and has an event that the text has not goes on behind it. -/
theorem Fixed.behind (h : Fixed p es) (hs : Lexes (p ++ s) es' t) {e : Event} (he : e ∈ es')
    (hne : e ∉ es) : ∃ rest, es' = es ++ rest ∧ Lexes s rest t := by
  induction h generalizing es' with
  | nil => exact ⟨es', rfl, hs⟩
  | token htoken _ ih =>
    rw [List.mem_append, not_or] at hne
    rw [List.append_assoc] at hs
    obtain ⟨rest, rfl, hrest⟩ := hs.next (htoken _) (List.ne_nil_of_mem he)
    obtain ⟨rest', rfl, hrest'⟩ := ih hrest ((List.mem_append.mp he).resolve_left hne.1) hne.2
    exact ⟨rest', (List.append_assoc _ _ _).symm, hrest'⟩

/-! ### Names and values -/

theorem name_cons (h : isName name = true) : ∃ c rest, name = c :: rest ∧ isNameStart c = true ∧
    ∀ c' ∈ name, isNameChar c' = true := by
  cases name with
  | nil => cases h
  | cons c rest =>
    obtain ⟨hc, hrest⟩ := (Bool.and_eq_true _ _).mp h
    refine ⟨c, rest, rfl, hc, List.forall_mem_cons.mpr ⟨?_, List.all_eq_true.mp hrest⟩⟩
    rw [isNameChar, hc, Bool.true_or]

theorem not_mem_name (h : isName name = true) (hc : isNameChar c = false) : c ∉ name := by
  intro hmem
  obtain ⟨-, -, -, -, hall⟩ := name_cons h
  rw [hall c hmem] at hc
  cases hc

theorem readName_behind (h : isName name = true) (hc : isNameChar c = false) (s : Text) :
    readName (name ++ c :: s) = some (name, c :: s) := by
  obtain ⟨-, -, -, -, hall⟩ := name_cons h
  have htake : (name ++ c :: s).takeWhile isNameChar = name := by
    rw [List.takeWhile_append_of_pos hall, List.takeWhile_cons_of_neg (by simp [hc]),
      List.append_nil]
  have hdrop : (name ++ c :: s).dropWhile isNameChar = c :: s := by
    rw [List.dropWhile_append_of_pos hall, List.dropWhile_cons_of_neg (by simp [hc])]
  rw [readName, htake, hdrop, if_pos h]

theorem readToken_start (h : isName name = true) (s : Text) :
    readToken ('<' :: (name ++ '>' :: s)) = some ([.start name], s) := by
  have hname := readName_behind h (c := '>') rfl s
  obtain ⟨c, rest, rfl, hc, -⟩ := name_cons h
  have hdrop (mark : Text) {c' : Char} (hc' : isNameStart c' = false) :
      (c :: rest ++ '>' :: s).dropPrefix? (c' :: mark) = none := by
    refine if_neg ?_
    rw [beq_iff_eq]
    rintro rfl
    rw [hc] at hc'
    cases hc'
  have hmisc : readMisc (c :: rest ++ '>' :: s) = none := by
    unfold readMisc
    rw [show "!--".toList = '!' :: "--".toList from rfl, hdrop _ rfl,
      show "?".toList = '?' :: [] from rfl, hdrop _ rfl]
  have htag : readStartTag (c :: rest ++ '>' :: s) = some ([.start (c :: rest)], s) := by
    unfold readStartTag
    rw [hname]
    rfl
  change readMarkup (c :: rest ++ '>' :: s) = _
  unfold readMarkup
  rw [hmisc, show "![CDATA[".toList = '!' :: "[CDATA[".toList from rfl, hdrop _ rfl,
    show "/".toList = '/' :: [] from rfl, hdrop _ rfl]
  exact htag

theorem readToken_stop (h : isName name = true) (s : Text) :
    readToken ('<' :: '/' :: (name ++ '>' :: s)) = some ([.stop name], s) := by
  have htag : readEndTag (name ++ '>' :: s) = some ([.stop name], s) := by
    have hend : (skipSpace ('>' :: s)).dropPrefix? ">".toList = some s := dropPrefix_some.mpr rfl
    unfold readEndTag
    rw [readName_behind h rfl]
    simp only [bind, Option.bind_some, hend]
  have hslash : ('/' :: (name ++ '>' :: s)).dropPrefix? "/".toList = some (name ++ '>' :: s) :=
    dropPrefix_some.mpr rfl
  change readMarkup ('/' :: (name ++ '>' :: s)) = _
  unfold readMarkup
  rw [hslash]
  exact htag

/-- The end of a literal text is seen in the text. -/
theorem prefix_of_open (h : "]]>".toList <+: v ++ '<' :: s) : "]]>".toList <+: v := by
  match v with
  | [] => simp at h
  | [_] => simp at h
  | [_, _] => simp at h
  | c₁ :: c₂ :: c₃ :: v =>
    simp only [List.cons_append] at h ⊢
    simpa using h

theorem Literal.lexes (h : Literal v) (hs : Lexes ('<' :: s) es t) :
    Lexes (v ++ '<' :: s) (v.map .char ++ es) t := by
  induction v with
  | nil => exact hs
  | cons c v ih =>
    obtain ⟨⟨hopen, hamp, hxml, hend⟩, hv⟩ := h
    have hdrop : (c :: (v ++ '<' :: s)).dropPrefix? "]]>".toList = none :=
      Option.eq_none_iff_forall_not_mem.mpr fun rest hrest =>
        hend (prefix_of_open ⟨rest, (dropPrefix_some.mp hrest).symm⟩)
    have hfirst : readToken (c :: (v ++ '<' :: s)) = some ([.char c], v ++ '<' :: s) := by
      rw [readToken, if_neg hopen, if_neg hamp, if_pos ⟨hxml, hdrop⟩]
    change Lexes _ ([.char c] ++ (v.map .char ++ es)) t
    exact .token hfirst (ih hv)

/-! ### Line ends -/

theorem lineEnds_length (s : Text) : (lineEnds s).length ≤ s.length := by
  fun_induction lineEnds s with
  | case1 s ih =>
    simp only [List.length_cons]
    omega
  | case2 c s _ ih => exact Nat.succ_le_succ ih
  | case3 => exact le_refl 0

theorem lineEnds_clean (s : Text) : '\r' ∉ lineEnds s := by
  fun_induction lineEnds s with
  | case1 s ih => simpa using ih
  | case2 c s _ ih =>
    rw [List.mem_cons, not_or]
    refine ⟨?_, ih⟩
    split
    · decide
    · exact fun h => ‹¬ c = '\r'› h.symm
  | case3 => exact List.not_mem_nil

theorem lineEnds_cons (hc : c ≠ '\r') (s : Text) : lineEnds (c :: s) = c :: lineEnds s := by
  rw [lineEnds, if_neg hc]
  intro _ h
  exact absurd h hc

/-- Text without the character is left as it is. -/
theorem lineEnds_append (h : '\r' ∉ p) (s : Text) : lineEnds (p ++ s) = p ++ lineEnds s := by
  induction p with
  | nil => rfl
  | cons c p ih =>
    rw [List.mem_cons, not_or] at h
    rw [List.cons_append, lineEnds_cons (Ne.symm h.1), ih h.2, List.cons_append]

theorem lineEnds_eq_iff : lineEnds v = v ↔ '\r' ∉ v := by
  constructor
  · intro h
    rw [← h]
    exact lineEnds_clean v
  · intro h
    have heq := lineEnds_append h []
    rwa [List.append_nil, lineEnds, List.append_nil] at heq

theorem lineEnds_open (v s : Text) :
    lineEnds (v ++ '<' :: s) = lineEnds v ++ '<' :: lineEnds s := by
  fun_induction lineEnds v with
  | case1 v ih => rw [List.cons_append, List.cons_append, lineEnds, ih, List.cons_append]
  | case2 c v hv ih =>
    rw [List.cons_append, List.cons_append, ← ih]
    cases v with
    | nil =>
      rw [List.nil_append, lineEnds]
      simp
    | cons c' v =>
      rw [List.cons_append, lineEnds]
      rintro s' rfl heq
      cases heq
      exact hv _ rfl rfl
  | case3 => rw [List.nil_append, lineEnds_cons (by decide), List.nil_append]

/-- Text between texts that may hold line ends. -/
theorem lineEnds_between (h : '\r' ∉ p) (v s : Text) :
    lineEnds (v ++ ('<' :: p ++ s)) = lineEnds v ++ ('<' :: p ++ lineEnds s) := by
  rw [List.cons_append, lineEnds_open, lineEnds_append h, List.cons_append]

/-! ### Written elements -/

def written (name v : Text) : Text := '<' :: (name ++ '>' :: (v ++ '<' :: '/' :: (name ++ ['>'])))

def writtenAll (ms : List (Text × Text)) : Text := ms.flatMap fun m => written m.1 m.2

def textNode (m : Text × Text) : Node := .element m.1 (m.2.map .char)

theorem events_textNode (m : Text × Text) :
    (textNode m).events = .start m.1 :: (m.2.map .char ++ [.stop m.1]) := by
  rw [textNode, events_element, eventsOf_chars]

theorem Literal.written (hname : isName name = true) (h : Literal v) (hs : Lexes s es t) :
    Lexes (written name v ++ s) ((textNode (name, v)).events ++ es) t := by
  have hstop : Lexes ('<' :: '/' :: (name ++ '>' :: s)) (.stop name :: es) t :=
    .token (readToken_stop hname s) hs
  have hstart := Lexes.token (readToken_start hname _) (h.lexes hstop)
  rw [events_textNode]
  simpa [Xml.written] using hstart

theorem Literal.writtenAll {ms : List (Text × Text)}
    (h : ∀ m ∈ ms, isName m.1 = true ∧ Literal m.2) (hs : Lexes s es t) :
    Lexes (writtenAll ms ++ s) (eventsOf (ms.map textNode) ++ es) t := by
  induction ms with
  | nil => exact hs
  | cons m ms ih =>
    obtain ⟨⟨hname, hv⟩, hms⟩ := List.forall_mem_cons.mp h
    have hfirst := hv.written hname (ih hms)
    rw [List.map_cons, eventsOf_cons, Xml.writtenAll, List.flatMap_cons, List.append_assoc,
      List.append_assoc]
    exact hfirst

theorem lineEnds_written (hname : isName name = true) (v s : Text) :
    lineEnds (written name v ++ s) = written name (lineEnds v) ++ lineEnds s := by
  have hclean : '\r' ∉ name := not_mem_name hname rfl
  have hstart : '\r' ∉ '<' :: (name ++ ['>']) := by simp [hclean]
  have hstop : '\r' ∉ '/' :: (name ++ ['>']) := by simp [hclean]
  have hshape (v : Text) (s : Text) : Xml.written name v ++ s =
      ('<' :: (name ++ ['>'])) ++ (v ++ ('<' :: ('/' :: (name ++ ['>'])) ++ s)) := by
    simp [Xml.written]
  rw [hshape, lineEnds_append hstart, lineEnds_between hstop, hshape]

theorem lineEnds_writtenAll {ms : List (Text × Text)} (hnames : ∀ m ∈ ms, isName m.1 = true)
    (s : Text) : lineEnds (writtenAll ms ++ s) =
      writtenAll (ms.map fun m => (m.1, lineEnds m.2)) ++ lineEnds s := by
  induction ms with
  | nil => rfl
  | cons m ms ih =>
    obtain ⟨hname, hnames⟩ := List.forall_mem_cons.mp hnames
    rw [List.map_cons, writtenAll, writtenAll, List.flatMap_cons, List.flatMap_cons,
      List.append_assoc, List.append_assoc, lineEnds_written hname]
    exact congrArg _ (ih hnames)

theorem suffix_behind {α : Type} {a : α} {l xs ys : List α} (h : a :: l <:+ xs ++ ys)
    (hne : a ∉ xs) : a :: l <:+ ys := by
  induction xs with
  | nil => exact h
  | cons x xs ih =>
    rw [List.mem_cons, not_or] at hne
    rcases List.suffix_cons_iff.mp h with heq | h
    · exact absurd (List.head_eq_of_cons_eq heq) hne.1
    · exact ih h hne.2

/-- A start tag in an element without content is its own, or comes behind it. -/
theorem suffix_written {l r : Text} (hname : isName name = true) (hc : c ≠ '/')
    (h : '<' :: c :: l <:+ written name [] ++ r) :
    '<' :: c :: l = written name [] ++ r ∨ '<' :: c :: l <:+ r := by
  have hopen : '<' ∉ name := not_mem_name hname rfl
  have hshape : written name [] ++ r =
      '<' :: (name ++ '>' :: '<' :: '/' :: (name ++ '>' :: r)) := by simp [written]
  rw [hshape] at h ⊢
  refine (List.suffix_cons_iff.mp h).imp_right fun h => ?_
  have hbehind := suffix_behind h hopen
  rcases List.suffix_cons_iff.mp hbehind with heq | h
  · cases heq
  rcases List.suffix_cons_iff.mp h with heq | h
  · cases heq
    exact absurd rfl hc
  rcases List.suffix_cons_iff.mp h with heq | h
  · cases heq
  rcases List.suffix_cons_iff.mp (suffix_behind h hopen) with heq | h
  · cases heq
  · exact h

/-! ### Elements that are read late -/

theorem length_written (name v : Text) :
    (written name v).length = 2 * name.length + v.length + 5 := by
  simp only [written, List.length_cons, List.length_append, List.length_nil]
  omega

theorem suffix_of_length {α : Type} {r x y : List α} (hx : r <:+ x) (hy : y <:+ x)
    (h : r.length ≤ y.length) : r <:+ y := List.suffix_of_suffix_length_le hx hy h

/-- An element with a text `v` is read of what may lack the first characters of an element with
no longer a text `w`. Then what follows the latter may lack some too, and lacks none only if
the element was read as it is written. -/
theorem Lexes.written {r rest : Text} (hname : isName name = true) (hlen : w.length ≤ v.length)
    (hr : r <:+ Xml.written name w ++ rest) (h : Lexes r ((textNode (name, v)).events ++ es) u) :
    ∃ t, t <:+ rest ∧ Lexes t es u ∧
      (t = rest → r = Xml.written name w ++ rest ∧ w = v ∧ Literal v) := by
  rw [events_textNode] at h
  simp only [List.cons_append, List.append_assoc, List.nil_append] at h
  have hrest : rest <:+ Xml.written name w ++ rest := List.suffix_append _ _
  have hlength := hr.length_le
  rw [List.length_append, length_written] at hlength
  have hfirst : Lexes r ([] ++ .start name :: (v.map .char ++ .stop name :: es)) u := h
  obtain ⟨p, body, t₁, rfl, -, hopened⟩ := hfirst.opened
  simp only [List.length_append, List.length_cons] at hlength
  rcases hopened with ht₁ | ⟨⟨c, b, rfl, hc⟩, rest', hes, ht₁⟩
  · obtain ⟨p', t, rfl, hclosed, ht⟩ := ht₁.closed
    have hlong := hclosed.long
    simp only [List.length_append] at hlength
    have hsuffix : t <:+ p ++ '<' :: (name ++ (body ++ '>' :: (p' ++ t))) :=
      ⟨p ++ '<' :: (name ++ (body ++ '>' :: p')), by simp⟩
    refine ⟨t, suffix_of_length (hsuffix.trans hr) hrest (by omega), ht, ?_⟩
    rintro rfl
    -- nothing was skipped, and every part is as short as it can be
    have hp : p = [] := List.length_eq_zero_iff.mp (by omega)
    have hbody : body = [] := List.length_eq_zero_iff.mp (by omega)
    obtain ⟨rfl, hliteral⟩ := hclosed.tight (by omega)
    subst hp hbody
    have hwhole := hr.eq_of_length (by
      simp only [List.length_append, List.length_cons, List.length_nil, length_written]
      omega)
    have hwv : w = v := by simpa [Xml.written] using hwhole.symm
    exact ⟨hwhole, hwv, hliteral⟩
  · obtain ⟨rfl, rfl⟩ : v = [] ∧ es = rest' := by
      cases v with
      | nil =>
        cases hes
        exact ⟨rfl, rfl⟩
      | cons => cases hes
    obtain rfl : w = [] := List.length_eq_zero_iff.mp (Nat.le_zero.mp hlen)
    obtain ⟨first, others, rfl, hfirst, -⟩ := name_cons hname
    have hopen : first ≠ '/' := by
      rintro rfl
      cases hfirst
    have hsuffix : '<' :: first :: (others ++ (c :: b ++ '>' :: t₁)) <:+
        Xml.written (first :: others) [] ++ rest := (List.suffix_append p _).trans hr
    rcases suffix_written hname hopen hsuffix with heq | hlate
    · -- the tag would be the start tag that is there
      simp only [Xml.written, List.cons_append, List.append_assoc, List.nil_append, List.cons.injEq,
        true_and, List.append_cancel_left_eq] at heq
      exact absurd heq.1 hc
    · have ht : t₁ <:+ '<' :: first :: (others ++ (c :: b ++ '>' :: t₁)) :=
        ⟨'<' :: first :: (others ++ (c :: b ++ ['>'])), by simp⟩
      refine ⟨t₁, ht.trans hlate, ht₁, ?_⟩
      rintro rfl
      have := hlate.length_le
      simp only [List.length_cons, List.length_append] at this
      omega

/-- The same for elements one after the other, whose texts have had their line ends changed. -/
theorem Lexes.writtenAll {ms : List (Text × Text)} {r rest : Text}
    (hnames : ∀ m ∈ ms, isName m.1 = true)
    (hr : r <:+ Xml.writtenAll (ms.map fun m => (m.1, lineEnds m.2)) ++ rest)
    (h : Lexes r (eventsOf (ms.map textNode) ++ es) u) :
    ∃ t, t <:+ rest ∧ Lexes t es u ∧
      (t = rest → r = Xml.writtenAll (ms.map fun m => (m.1, lineEnds m.2)) ++ rest ∧
        ∀ m ∈ ms, lineEnds m.2 = m.2 ∧ Literal m.2) := by
  induction ms generalizing r with
  | nil => exact ⟨r, hr, h, fun heq => ⟨heq, by simp⟩⟩
  | cons m ms ih =>
    obtain ⟨hname, hnames⟩ := List.forall_mem_cons.mp hnames
    rw [List.map_cons, Xml.writtenAll, List.flatMap_cons, List.append_assoc] at hr
    rw [List.map_cons, eventsOf_cons, List.append_assoc] at h
    obtain ⟨t₁, ht₁, hlex, hfirst⟩ := h.written hname (lineEnds_length m.2) hr
    obtain ⟨t, ht, hlex, hothers⟩ := ih hnames ht₁ hlex
    refine ⟨t, ht, hlex, fun heq => ?_⟩
    obtain ⟨ht₁eq, hms⟩ := hothers heq
    obtain ⟨hreq, hvalue⟩ := hfirst ht₁eq
    refine ⟨?_, List.forall_mem_cons.mpr ⟨hvalue, hms⟩⟩
    rw [hreq, List.map_cons, Xml.writtenAll, List.flatMap_cons, List.append_assoc]

end Xml
end Flingd
